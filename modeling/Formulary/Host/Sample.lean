import Formulary.Host.Standard

/-!
# A sample host

Customers, accounts, shapes and money: a host with records, embedded and hidden fields, access
rules, methods on values and on pointers, methods that fail, and enumerations.
-/

namespace Formulary.Sample

def customer : Ty := .record "main.Customer"

def account : Ty := .record "main.Account"

def address : Ty := .record "main.Address"

def base : Ty := .record "main.Base"

def square : Ty := .record "main.Square"

def money : Ty := .record "main.Money"

def shape : Ty := .face "main.Shape"

def level : Ty := .enum "main.Level" .byte

def cents : Ty := .enum "main.Cents" .long

/-- The types of the host by their short names. -/
def types : List (String × Ty) :=
  [("customer", customer), ("account", account), ("address", address), ("square", square),
    ("money", money), ("shape", shape), ("level", level), ("cents", cents), ("main.Base", base),
    ("weekday", Standard.weekday), ("month", Standard.month), ("error", .error),
    ("stringer", .face "fmt.Stringer"), ("null", .null)]

def records : List (String × List Field) :=
  [("main.Address", [{ name := "City", type := .string }, { name := "Zip", type := .int .int }]),
    ("main.Customer",
      [{ name := "Name", type := .string }, { name := "Age", type := .int .int },
        { name := "Tags", type := .slice .string }, { name := "Address", type := .pointer address },
        { name := "score", type := .int .int, exported := false },
        { name := "Hidden", type := .int .int, tag := .deny },
        { name := "note", type := .string, exported := false, tag := .allow }]),
    ("main.Base", [{ name := "ID", type := .int .int },
      { name := "tag", type := .string, exported := false }]),
    ("main.Account",
      [{ name := "Base", type := base, embedded := true }, { name := "Name", type := .string },
        { name := "balance", type := .double, exported := false },
        { name := "Level", type := level }, { name := "Parent", type := .pointer account }]),
    ("main.Square", [{ name := "Side", type := .double }]),
    ("main.Money", [{ name := "Units", type := .int .long }])]

def fieldAt (i : Nat) (v : Value) : Value :=
  match v.content with
  | .record _ fields => fields.getD i .nil
  | _ => .nil

def textOf : Value → Text
  | .string t => t
  | _ => []

def itemsOf : Value → List Value
  | .slice _ _ items _ => items
  | _ => []

def onCustomer (name : String) (params : List Ty) (results : List Ty)
    (body : Value → List Value → Eval Value)
    (variadic : Bool := false) : Method :=
  { name := name, signature := ⟨params, variadic, results⟩, needsPointer := true, body := body }

def customerMethods : List Method :=
  [onCustomer "Add" [.int .int, .int .int] [.int .int] fun _ args =>
      pure (.ofInt .int ((args.map Standard.intOf).foldl (· + ·) 0)),
    onCustomer "Boom" [] [.int .int] fun _ _ => failed (.broken (some "kaboom")),
    onCustomer "Check" [] [.error] fun _ _ => failed (.plain "checked"),
    onCustomer "Fail" [] [.int .int, .error] fun _ _ => failed (.plain "boom"),
    onCustomer "Greeting" [] [.string] fun c _ =>
      pure (.string (Text.ofString "hi " ++ textOf (fieldAt 0 c))),
    onCustomer "Log" [.string] [] fun _ _ => pure .nil,
    onCustomer "Narrow" [.int .int] [.string] fun _ _ => pure (.ofString "owner-int"),
    onCustomer "Pair" [] [.int .int, .int .int] fun _ _ => pure (.int .int 1),
    onCustomer "Self" [] [.pointer customer] fun c _ => pure c,
    onCustomer "Sum" [.slice (.int .int)] [.int .int]
      (fun _ args =>
        pure (.ofInt .int (((args.flatMap itemsOf).map Standard.intOf).foldl (· + ·) 0))) true,
    onCustomer "Wide" [.double] [.string] fun _ _ => pure (.ofString "owner-double")]

def accountMethods : List Method :=
  [{ name := "Balance", signature := ⟨[], false, [.double]⟩, body := fun a _ =>
    pure (fieldAt 2 a) },
    { name := "Greet", signature := ⟨[.string, .slice .string], true, [.string]⟩,
      body := fun _ args =>
        match args with
        | [.string greeting, names] =>
          let all := ((itemsOf names).map textOf).intersperse (Text.ofString ", ")
          pure (.string (greeting ++ Text.ofString " " ++ all.flatten))
        | _ => breakdown },
    { name := "Reset", signature := ⟨[], false, []⟩, body := fun _ _ => pure .nil }]

def area (v : Value) : Value :=
  match fieldAt 0 v with
  | .double s => .double (s * s)
  | _ => .double 0

def methods : Ty → List Method
  | .record "main.Customer" => customerMethods
  | .record "main.Account" => accountMethods
  | .record "main.Square" =>
    [{ name := "Area", signature := ⟨[], false, [.double]⟩, body := fun s _ => pure (area s) }]
  | t => Standard.methods t

def host : Host :=
  { records := records ++ Standard.records
    interfaces := ("main.Shape", [("Area", ⟨[], false, [.double]⟩)]) :: Standard.interfaces
    methods := methods
    otherNames := Standard.otherNames }

end Formulary.Sample
