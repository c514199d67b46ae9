import Formulary.Calendar.Moment
import Formulary.Calendar.Pattern
import Formulary.Number.Shortest
import Formulary.Number.Literal

/-!
# Layouts

A layout spells the reference date, 2 January 2006 at 15:04:05 seven hours west of the meridian, in
the form in which a moment is written or read. A layout is scanned into chunks, each a literal text
followed by one field; `Moment.format` writes a moment chunk by chunk and `readMoment` reads one.
-/

namespace Formulary.Calendar

inductive OffsetForm where
  | hours
  | plain
  | colon
  | plainSeconds
  | colonSeconds
  deriving DecidableEq, Repr

inductive Fill where
  | none
  | zero
  | blank
  deriving DecidableEq, Repr

inductive Field where
  | year (long : Bool)
  | monthName (long : Bool)
  | month (fill : Fill)
  | weekday (long : Bool)
  | day (fill : Fill)
  | yearDay (fill : Fill)
  | hour
  | halfHour (fill : Fill)
  | minute (fill : Fill)
  | second (fill : Fill)
  | half (capital : Bool)
  | offset (zulu : Bool) (form : OffsetForm)
  | zone
  | fraction (mark : Char) (trim : Bool) (digits : Nat)
  deriving DecidableEq, Repr

def startsSmall : List Char → Bool
  | c :: _ => c.isLower
  | [] => false

/-- The fields spelled by a fixed text; the first that fits counts. The flag forbids a small letter
next. -/
def fixedFields : List (String × Bool × Field) :=
  [("January", false, .monthName true), ("Jan", true, .monthName false),
    ("Monday", false, .weekday true), ("Mon", true, .weekday false), ("MST", false, .zone),
    ("01", false, .month .zero), ("02", false, .day .zero), ("03", false, .halfHour .zero),
    ("04", false, .minute .zero), ("05", false, .second .zero), ("06", false, .year false),
    ("002", false, .yearDay .zero), ("15", false, .hour), ("1", false, .month .none),
    ("2006", false, .year true), ("2", false, .day .none), ("__2", false, .yearDay .blank),
    ("3", false, .halfHour .none), ("4", false, .minute .none), ("5", false, .second .none),
    ("PM", false, .half true), ("pm", false, .half false),
    ("-070000", false, .offset false .plainSeconds),
    ("-07:00:00", false, .offset false .colonSeconds),
    ("-0700", false, .offset false .plain), ("-07:00", false, .offset false .colon),
    ("-07", false, .offset false .hours), ("Z070000", false, .offset true .plainSeconds),
    ("Z07:00:00", false, .offset true .colonSeconds), ("Z0700", false, .offset true .plain),
    ("Z07:00", false, .offset true .colon), ("Z07", false, .offset true .hours)]

/-- A fraction field at the front: a point or comma and zeros or nines that no digit follows. -/
def fractionAt? : List Char → Option (Field × Nat)
  | mark :: d :: rest =>
    if (mark == '.' || mark == ',') && (d == '0' || d == '9') then
      let more := rest.takeWhile (· == d)
      match rest.drop more.length with
      | c :: _ =>
        if c.isDigit then none
        else some (.fraction mark (d == '9') (more.length + 1), more.length + 2)
      | [] => some (.fraction mark (d == '9') (more.length + 1), more.length + 2)
    else none
  | _ => none

/-- The field at the front of a layout and its width. An underscore before a day fills it with a
blank, unless the digit starts the year. -/
def fieldAt? (cs : List Char) : Option (Field × Nat) :=
  match cs with
  | '_' :: '2' :: rest =>
    if "006".toList.isPrefixOf rest then none else some (.day .blank, 2)
  | _ =>
    match fixedFields.find? fun f =>
        f.1.toList.isPrefixOf cs && !(f.2.1 && startsSmall (cs.drop f.1.length)) with
    | some (spelled, _, field) => some (field, spelled.length)
    | none => fractionAt? cs

structure Chunk where
  literal : List Char
  field : Field
  spelled : List Char
  deriving DecidableEq, Repr

/-- Scans a layout: `skip` characters still belong to the last field, `literal` has been gathered in
reverse. -/
def scanLayout : Nat → List Char → List Char → List Chunk × List Char
  | _, literal, [] => ([], literal.reverse)
  | skip + 1, literal, _ :: rest => scanLayout skip literal rest
  | 0, literal, c :: rest =>
    match fieldAt? (c :: rest) with
    | some (field, width) =>
      let (chunks, last) := scanLayout (width - 1) [] rest
      (⟨literal.reverse, field, (c :: rest).take width⟩ :: chunks, last)
    | none => scanLayout 0 (c :: literal) rest

def chunks (layout : Text) : List Chunk × List Char := scanLayout 0 [] layout.byteChars

/-- An integer with a least number of digits, the sign not counted. -/
def paddedInt (width : Nat) (n : Int) : String :=
  (if n < 0 then "-" else "") ++ Number.padded width n.natAbs

def filled (fill : Fill) (width n : Nat) : String :=
  match fill with
  | .none => n.repr
  | .zero => Number.padded width n
  | .blank => "".pushn ' ' (width - n.repr.length) ++ n.repr

/-- The name in full or its first three letters. -/
def nameOf (long : Bool) (name : String) : String :=
  if long then name else String.ofList (name.toList.take 3)

def offsetText (form : OffsetForm) (offset : Int) : String :=
  let minutes := offset.tdiv 60
  let sign := if minutes < 0 then "-" else "+"
  let seconds := if minutes < 0 then -offset else offset
  let hh := Number.padded 2 (minutes.natAbs / 60)
  let mm := Number.padded 2 (minutes.natAbs % 60)
  let ss := paddedInt 2 (seconds.tmod 60)
  sign ++
    match form with
    | .hours => hh
    | .plain => hh ++ mm
    | .colon => hh ++ ":" ++ mm
    | .plainSeconds => hh ++ mm ++ ss
    | .colonSeconds => hh ++ ":" ++ mm ++ ":" ++ ss

def fractionText (mark : Char) (trim : Bool) (digits nanos : Nat) : String :=
  let shown := (Number.padded 9 nanos).toList.take digits
  if trim then
    let kept := (shown.reverse.dropWhile (· == '0')).reverse
    if kept.isEmpty then "" else String.ofList (mark :: kept)
  else String.ofList (mark :: shown)

def Field.write (t : Moment) : Field → String
  | .year true => paddedInt 4 t.year
  | .year false => Number.padded 2 (t.year.toNat % 100)
  | .monthName long => nameOf long (Calendar.monthName t.month)
  | .month fill => filled fill 2 t.month
  | .weekday long => nameOf long (weekdayName t.weekday)
  | .day fill => filled fill 2 t.day
  | .yearDay fill => filled fill 3 t.yearDay
  | .hour => Number.padded 2 t.hour
  | .halfHour fill => filled fill 2 (if t.hour % 12 == 0 then 12 else t.hour % 12)
  | .minute fill => filled fill 2 t.minute
  | .second fill => filled fill 2 t.sec
  | .half capital =>
    if capital then (if t.hour < 12 then "AM" else "PM") else (if t.hour < 12 then "am" else "pm")
  | .offset zulu form => if zulu && t.zone.offset == 0 then "Z" else offsetText form t.zone.offset
  | .zone => if t.zone.name.isEmpty then offsetText .plain t.zone.offset else t.zone.name
  | .fraction mark trim digits => fractionText mark trim digits t.nanos

def Moment.format (t : Moment) (layout : Text) : Text :=
  let (fields, last) := chunks layout
  fields.flatMap (fun c => Text.ofByteChars c.literal ++ Text.ofString (c.field.write t))
    ++ Text.ofByteChars last

/-- A moment with its offset and zone name. -/
def Moment.text (t : Moment) : String :=
  (t.format (Text.ofString "2006-01-02 15:04:05.999999999 -0700 MST")).toString

/-- A moment in the form of the internet date standard. -/
def Moment.standardText (t : Moment) : String :=
  (t.format (Text.ofString "2006-01-02T15:04:05.999999999Z07:00")).toString

inductive ReadFault where
  | mismatch (value layout : List Char)
  | extra (rest : List Char)
  | outOfRange (what : String)
  | disagrees (what : String)
  deriving DecidableEq, Repr

/-- A text between quotes, everything beyond printable ASCII spelled byte by byte. -/
def quoteBytes (cs : List Char) : String :=
  let one (c : Char) : String :=
    if c.toNat < 0x20 || 0x80 ≤ c.toNat then "\\x" ++ Text.hexPadded 2 c.toNat
    else if c == '"' || c == '\\' then String.ofList ['\\', c]
    else String.singleton c
  "\"" ++ String.join (cs.map one) ++ "\""

def ReadFault.message (layout value : List Char) : ReadFault → String
  | .mismatch v l =>
    s!"parsing time {quoteBytes value} as {quoteBytes layout}: cannot parse {quoteBytes v} as {quoteBytes l}"
  | .extra rest => s!"parsing time {quoteBytes value}: extra text: {quoteBytes rest}"
  | .outOfRange what => s!"parsing time {quoteBytes value}: {what} out of range"
  | .disagrees what => s!"parsing time {quoteBytes value}: day-of-year does not match {what}"

structure Reading where
  year : Int := 0
  month : Option Nat := none
  day : Option Nat := none
  yearDay : Option Nat := none
  hour : Nat := 0
  minute : Nat := 0
  sec : Nat := 0
  nanos : Nat := 0
  morning : Bool := false
  evening : Bool := false
  universal : Bool := false
  offset : Option Int := none
  zoneName : List Char := []
  deriving Repr

inductive FieldFault where
  | unfit
  | range (what : String)

/-- Steps over a literal text; a run of blanks matches any run of blanks, and the flag says that
such a run has begun. Gives the rest, or the place of the mismatch. -/
def skipLiteral : Bool → List Char → List Char → Except (List Char) (List Char)
  | _, [], value => .ok value
  | blank, p :: rest, value =>
    if p == ' ' then
      if blank then skipLiteral true rest value
      else
        match value with
        | [] => skipLiteral true rest []
        | v :: _ =>
          if v == ' ' then skipLiteral true rest (value.dropWhile (· == ' ')) else .error value
    else
      match value with
      | v :: more => if v == p then skipLiteral false rest more else .error value
      | [] => .error []

/-- A signed number that fills the whole text; no digits count as zero. -/
def wholeInt? (cs : List Char) : Option Int :=
  let (negative, digits) := Number.spanSign cs
  if digits.all Char.isDigit then
    some (if negative then -(Number.digitsValue digits) else Number.digitsValue digits)
  else none

/-- One or two digits; exactly two when `fixed`. -/
def twoDigits? (fixed : Bool) : List Char → Option (Nat × List Char)
  | a :: b :: rest =>
    if !a.isDigit then none
    else if b.isDigit then some (Number.digitsValue [a, b], rest)
    else if fixed then none
    else some (Number.digitValue a, b :: rest)
  | [a] => if a.isDigit && !fixed then some (Number.digitValue a, []) else none
  | [] => none

/-- One to three digits; exactly three when `fixed`. -/
def threeDigits? (fixed : Bool) (cs : List Char) : Option (Nat × List Char) :=
  let digits := (cs.take 3).takeWhile Char.isDigit
  if digits.isEmpty || (fixed && digits.length != 3) then none
  else some (Number.digitsValue digits, cs.drop digits.length)

/-- Whether two texts agree up to the case of ASCII letters. -/
def sameLetters (a b : List Char) : Bool :=
  a.length == b.length && (a.zip b).all fun (x, y) =>
    x == y || (x.isAlpha && x.toLower == y.toLower)

/-- The first of the names that stands at the front, by its place. -/
def nameAt? (names : List String) (cs : List Char) : Option (Nat × List Char) :=
  let fits (n : String) : Bool := sameLetters (cs.take n.length) n.toList
  (names.findIdx? fits).map fun i => (i, cs.drop (names[i]?.getD "").length)

/-- The names in full or cut to three letters. -/
def namesOf (long : Bool) (names : List String) : List String := names.map (nameOf long)

/-- The nanoseconds of a fraction whose mark and digits are given; nine digits count. -/
def nanosOf (cs : List Char) : Except FieldFault Nat :=
  match cs.take 10 with
  | mark :: digits =>
    if mark == '.' || mark == ',' then
      match wholeInt? digits with
      | some n =>
        if n < 0 then .error (.range "fractional second")
        else .ok (n.toNat * Nat.pow 10 (9 - digits.length))
      | none => .error .unfit
    else .error .unfit
  | [] => .error .unfit

def fractionFront (cs : List Char) : List Char :=
  match cs with
  | mark :: d :: rest =>
    if (mark == '.' || mark == ',') && d.isDigit then
      mark :: d :: rest.takeWhile Char.isDigit else []
  | _ => []

/-- The texts of hours, minutes and seconds of an offset after its sign. -/
def offsetParts? (form : OffsetForm) (cs : List Char) :
    Option (List Char × List Char × List Char × List Char) :=
  let zeros := ['0', '0']
  match form, cs with
  | .colon, a :: b :: ':' :: c :: d :: rest => some ([a, b], [c, d], zeros, rest)
  | .hours, a :: b :: rest => some ([a, b], zeros, zeros, rest)
  | .colonSeconds, a :: b :: ':' :: c :: d :: ':' :: e :: f :: rest =>
    some ([a, b], [c, d], [e, f], rest)
  | .plainSeconds, a :: b :: c :: d :: e :: f :: rest => some ([a, b], [c, d], [e, f], rest)
  | .plain, a :: b :: c :: d :: rest => some ([a, b], [c, d], zeros, rest)
  | _, _ => none

def readOffset (form : OffsetForm) (cs : List Char) : Except FieldFault (Int × List Char) :=
  match cs with
  | sign :: body =>
    match offsetParts? form body with
    | some (h, m, s, rest) =>
      let hours := (twoDigits? true h).map (·.1)
      let minutes := hours.bind fun _ => (twoDigits? true m).map (·.1)
      let seconds := minutes.bind fun _ => (twoDigits? true s).map (·.1)
      let hours := hours.getD 0
      let minutes := minutes.getD 0
      if 60 < seconds.getD 0 then .error (.range "time zone offset second")
      else if 60 < minutes then .error (.range "time zone offset minute")
      else if 24 < hours then .error (.range "time zone offset hour")
      else
        match seconds with
        | none => .error .unfit
        | some s =>
          let total : Int := (hours * 60 + minutes) * 60 + s
          if sign == '+' then .ok (total, rest)
          else if sign == '-' then .ok (-total, rest)
          else .error .unfit
    | none => .error .unfit
  | [] => .error .unfit

/-- The length of a signed number of hours up to 23 at the front, zero if there is none. -/
def hoursWidth (cs : List Char) : Nat :=
  match cs with
  | sign :: rest =>
    let digits := rest.takeWhile Char.isDigit
    if (sign == '+' || sign == '-') && !digits.isEmpty && Number.digitsValue digits ≤ 23 then
      digits.length + 1
    else 0
  | [] => 0

def zoneNameWidth? (cs : List Char) : Option Nat :=
  if cs.length < 3 then none
  else if "ChST".toList.isPrefixOf cs || "MeST".toList.isPrefixOf cs then some 4
  else if "GMT".toList.isPrefixOf cs then some (3 + hoursWidth (cs.drop 3))
  else if cs.head? == some '+' || cs.head? == some '-' then
    let n := hoursWidth cs
    if n == 0 then none else some n
  else
    match ((cs.take 6).takeWhile Char.isUpper).length with
    | 3 => some 3
    | 4 => if cs[3]? == some 'T' || "WITA".toList.isPrefixOf cs then some 4 else none
    | 5 => if cs[4]? == some 'T' then some 5 else none
    | _ => none

/-- A number within a range, or the fault. -/
def ranged (what : String) (low high : Nat) (read : Option (Nat × List Char)) :
    Except FieldFault (Nat × List Char) :=
  match read with
  | none => .error .unfit
  | some (n, rest) => if n < low || high < n then .error (.range what) else .ok (n, rest)

def fitting (read : Option α) : Except FieldFault α :=
  match read with
  | some x => .ok x
  | none => .error .unfit

/-- Reads one field. After the seconds a fraction is taken even where the layout shows none, which
`next`, the field that follows, decides. -/
def Field.read (next : Option Field) (r : Reading) (cs : List Char) :
    Field → Except FieldFault (Reading × List Char)
  | .year false =>
    match cs with
    | a :: b :: rest => do
      let y ← fitting (wholeInt? [a, b])
      pure ({ r with year := if 69 ≤ y then y + 1900 else y + 2000 }, rest)
    | _ => .error .unfit
  | .year true =>
    match cs with
    | a :: b :: c :: d :: rest => do
      let y ← fitting (if a.isDigit then wholeInt? [a, b, c, d] else none)
      pure ({ r with year := y }, rest)
    | _ => .error .unfit
  | .monthName long => do
    let (i, rest) ← fitting (nameAt? (namesOf long monthNames) cs)
    pure ({ r with month := some (i + 1) }, rest)
  | .month fill => do
    let (n, rest) ← ranged "month" 1 12 (twoDigits? (fill == .zero) cs)
    pure ({ r with month := some n }, rest)
  | .weekday long => do
    let (_, rest) ← fitting (nameAt? (namesOf long weekdayNames) cs)
    pure (r, rest)
  | .day fill => do
    let cs := if fill == .blank && cs.head? == some ' ' then cs.drop 1 else cs
    let (n, rest) ← fitting (twoDigits? (fill == .zero) cs)
    pure ({ r with day := some n }, rest)
  | .yearDay fill => do
    let cs := if fill == .blank then cs.drop ((cs.take 2).takeWhile (· == ' ')).length else cs
    let (n, rest) ← fitting (threeDigits? (fill == .zero) cs)
    pure ({ r with yearDay := some n }, rest)
  | .hour => do
    let (n, rest) ← ranged "hour" 0 23 (twoDigits? false cs)
    pure ({ r with hour := n }, rest)
  | .halfHour fill => do
    let (n, rest) ← ranged "hour" 0 12 (twoDigits? (fill == .zero) cs)
    pure ({ r with hour := n }, rest)
  | .minute fill => do
    let (n, rest) ← ranged "minute" 0 59 (twoDigits? (fill == .zero) cs)
    pure ({ r with minute := n }, rest)
  | .second fill => do
    let (n, rest) ← ranged "second" 0 59 (twoDigits? (fill == .zero) cs)
    let r := { r with sec := n }
    match fractionFront rest, next with
    | [], _ => pure (r, rest)
    | _, some (.fraction ..) => pure (r, rest)
    | part, _ => do
      let nanos ← nanosOf part
      pure ({ r with nanos := nanos }, rest.drop part.length)
  | .half capital =>
    match cs with
    | a :: b :: rest =>
      let (am, pm) := if capital then (['A', 'M'], ['P', 'M']) else (['a', 'm'], ['p', 'm'])
      if [a, b] == pm then .ok ({ r with evening := true }, rest)
      else if [a, b] == am then .ok ({ r with morning := true }, rest)
      else .error .unfit
    | _ => .error .unfit
  | .offset zulu form =>
    if zulu && cs.head? == some 'Z' then .ok ({ r with universal := true }, cs.drop 1)
    else do
      let (seconds, rest) ← readOffset form cs
      pure ({ r with offset := some seconds }, rest)
  | .zone =>
    if "UTC".toList.isPrefixOf cs then .ok ({ r with universal := true }, cs.drop 3)
    else do
      let n ← fitting (zoneNameWidth? cs)
      pure ({ r with zoneName := cs.take n }, cs.drop n)
  | .fraction _ trim digits =>
    if trim then
      match fractionFront cs with
      | [] => .ok (r, cs)
      | part => do
        let nanos ← nanosOf part
        pure ({ r with nanos := nanos }, cs.drop part.length)
    else if cs.length < digits + 1 then .error .unfit
    else do
      let nanos ← nanosOf (cs.take (digits + 1))
      pure ({ r with nanos := nanos }, cs.drop (digits + 1))

/-- Reads the chunks of a layout one after the other and then its last literal text. -/
def readChunks (last : List Char) : List Chunk → Reading → List Char → Except ReadFault Reading
  | [], r, cs =>
    match skipLiteral false last cs with
    | .error at_ => .error (.mismatch at_ last)
    | .ok [] => .ok r
    | .ok rest => .error (.extra rest)
  | c :: more, r, cs =>
    match skipLiteral false c.literal cs with
    | .error at_ => .error (.mismatch at_ c.literal)
    | .ok rest =>
      match c.field.read (more.head?.map (·.field)) r rest with
      | .error .unfit => .error (.mismatch rest c.spelled)
      | .error (.range what) => .error (.outOfRange what)
      | .ok (r, rest) => readChunks last more r rest

def Reading.monthDay (r : Reading) : Except ReadFault (Nat × Nat) :=
  match r.yearDay with
  | none => .ok (r.month.getD 1, r.day.getD 1)
  | some n =>
    if n < 1 || (if isLeap r.year then 366 else 365) < n then .error (.outOfRange "day-of-year")
    else
      let month := monthOfDay r.year (n - 1)
      let day := n - daysBefore r.year month
      if r.month.any (· != month) then .error (.disagrees "month")
      else if r.day.any (· != day) then .error (.disagrees "day")
      else .ok (month, day)

/-- The moment of a reading. Without a zone it is in universal time; an offset of the local zone
means that zone, and a zone known by name only has no offset, unless the name spells one. -/
def Reading.moment (r : Reading) : Except ReadFault Moment := do
  let hour := if r.evening && r.hour < 12 then r.hour + 12 else if r.morning &&
    r.hour == 12 then 0 else r.hour
  let (month, day) ← r.monthDay
  if day < 1 || daysIn r.year month < day then .error (.outOfRange "day")
  else
    let t := Moment.ofFields r.year month day hour r.minute r.sec r.nanos
    if r.universal then pure (t .utc)
    else
      match r.offset.filter (· != -1) with
      | some n =>
        if n == 0 && (r.zoneName.isEmpty || r.zoneName == "UTC".toList) then pure (t .here)
        else pure (t (.fixed n (String.ofList r.zoneName)))
      | none =>
        if r.zoneName.isEmpty then pure (t .utc)
        else
          let shift :=
            if "GMT".toList.isPrefixOf r.zoneName then
              (wholeInt? (r.zoneName.drop 3)).getD 0 * 3600 else 0
          pure { t .utc with zone := .fixed shift (String.ofList r.zoneName) }

def readMoment (layout value : Text) : Except ReadFault Moment := do
  let (fields, last) := chunks layout
  let r ← readChunks last fields {} value.byteChars
  r.moment

inductive DateFault where
  | pattern (fault : PatternFault)
  | reading (layout value : Text) (fault : ReadFault)

def readDate (pattern text : Text) : Except DateFault Moment :=
  match layoutOf pattern with
  | .error fault => .error (.pattern fault)
  | .ok layout =>
    let text := Text.trimEndWith Text.isSpace (Text.trimStartWith Text.isSpace text)
    match readMoment layout text with
    | .error fault => .error (.reading layout text fault)
    | .ok t => .ok t

def DateFault.message (pattern : Text) : DateFault → String
  | .pattern fault => fault.message pattern
  | .reading layout value fault => fault.message layout.byteChars value.byteChars

end Formulary.Calendar
