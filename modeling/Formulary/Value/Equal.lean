import Formulary.Host.Basic

/-!
# Equality of values

`sameValue` compares two values of comparable types part by part, storage by its mark; `valuesEqual`
is the equality of expressions over objects, where slices and maps are equal if they share their
storage.
-/

namespace Formulary.Value

/-- Whether two zones are one: zones of a fixed offset are shared only for whole hours without a
name. -/
def sameZone : Calendar.Zone → Calendar.Zone → Bool
  | .utc, .utc => true
  | .here, .here => true
  | .fixed a n, .fixed b m => a == b && n.isEmpty && m.isEmpty && a.tmod 3600 == 0 &&
      -43200 ≤ a && a ≤ 50400
  | _, _ => false

mutual

/-- Whether two values are the same; nothing if they cannot be compared. -/
def sameValue : Value → Value → Option Bool
  | .nil, .nil => some true
  | .null, .null => some true
  | .bool a, .bool b => some (a == b)
  | .int k a, .int l b => some (k == l && a == b)
  | .enum n _ a, .enum m _ b => some (n == m && a == b)
  | .char a, .char b => some (a == b)
  | .single a, .single b => some (a == b)
  | .double a, .double b => some (a == b)
  | .decimal a m, .decimal b n => some (m.same n && a.exponent == b.exponent)
  | .string a, .string b => some (a == b)
  | .dateTime a, .dateTime b => some (a.sameInstant b && sameZone a.zone b.zone)
  | .timeSpan a, .timeSpan b => some (a == b)
  | .record n as, .record m bs => if n == m then sameValues as bs else some false
  | .missing t, .missing u =>
    if t == u then
      match t with
      | .pointer .. => some true
      | _ => none
    else some false
  | .pointer t m _ a, .pointer u n _ b => some (t == u && a == b && m.same n)
  | .slice t _ _ a, .slice u _ _ b => if t == u && a == b then none else some false
  | .array t as a, .array u bs b =>
    if t == u && a == b && as.length == bs.length then sameValues as bs else some false
  | .map k v _ _ _ a, .map l w _ _ _ b => if k == l && v == w && a == b then none else some false
  | _, _ => some false

def sameValues : List Value → List Value → Option Bool
  | [], [] => some true
  | a :: as, b :: bs =>
    match sameValue a b with
    | some true => sameValues as bs
    | r => r
  | _, _ => some false

end

mutual

def isHashable : Value → Bool
  | .slice .. | .map .. => false
  | .missing t =>
    match t with
    | .slice .. | .map .. => false
    | _ => true
  | .record _ fields => areHashable fields
  | .array _ items _ => areHashable items
  | _ => true

def areHashable : List Value → Bool
  | [] => true
  | v :: rest => v.isHashable && areHashable rest

end

def sharesStorage : Value → Value → Bool
  | .slice _ m _ _, .slice _ n _ _ => m.same n
  | .map _ _ m _ _ _, .map _ _ n _ _ _ => m.same n
  | _, _ => false

end Formulary.Value

namespace Formulary

/-- Equality of objects: missing values are equal to each other only, values of different types
differ, slices and maps are compared by their storage. -/
def Host.valuesEqual (host : Host) (a b : Value) : Option Bool :=
  if a.isNil || b.isNil then some (a.isNil == b.isNil)
  else
    match a.type?, b.type? with
    | some t, some u =>
      if t != u then some false
      else
        match t with
        | .slice .. | .map .. => some (a.sharesStorage b)
        | _ => if host.isComparable t then a.sameValue b else some false
    | _, _ => some false

def Value.lookup (key : Value) : List Value → List Value → Option Value
  | k :: keys, v :: values =>
    if k.sameValue key == some true then some v else Value.lookup key keys values
  | _, _ => none

end Formulary
