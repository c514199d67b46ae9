import Formulary.Yaml.Datum

/-!
# Values of documents

A document as values: sequences are lists of objects, mappings are maps. Complaints about it are
collected, each with its line.
-/

namespace Formulary.Yaml

def misfit (n : Node) (type : String) : String :=
  let shown := match n with
    | .scalar _ _ _ s =>
      if 10 < s.utf8ByteSize then s!" `{Text.toString ((Text.ofString s).take 7)}...`"
      else s!" `{s}`"
    | _ => ""
  s!"line {n.line}: cannot unmarshal {n.tagName}{shown} into {type}"

def Node.text : Node → String
  | .scalar _ _ _ s => s
  | _ => ""

/-- The complaints about keys that occur twice. -/
def repeatedKeys : List Node → List String
  | [] => []
  | k :: rest =>
    (rest.filter (sameKey k)).map (fun l =>
      s!"line {l.line}: mapping key {Text.quoteString l.text} already defined at line {k.line}") ++
        repeatedKeys rest

mutual

/-- The complaints about a node as any value: keys that occur twice. -/
def complaints : Node → List String
  | .scalar .. => []
  | .sequence _ _ items => complaintsOf items
  | .mapping _ _ ks vs =>
    match repeatedKeys ks with
    | [] => complaintsOf vs
    | cs => cs

def complaintsOf : List Node → List String
  | [] => []
  | n :: rest => complaints n ++ complaintsOf rest

end

/-- The integer of a document as a value: of the smaller common types where it fits, if it is to be
taken so. -/
def integerValue (usual : Bool) (n : Int) : Value :=
  if (Nat.pow 2 63 : Int) ≤ n then .int .ulong n
  else if !usual then .int .machine n
  else if -(Nat.pow 2 31 : Int) ≤ n && n < (Nat.pow 2 31 : Int) then .int .int n
  else .int .long n

mutual

/-- The value of a node. Integers are of the usual types, except within a mapping whose keys are not
all texts. -/
def valueOf (usual : Bool) : Node → Except Fault Value
  | .scalar _ tag plain s => do
    match ← Datum.of tag plain s with
    | .null => .ok .nil
    | .bool b => .ok (.bool b)
    | .int n => .ok (integerValue usual n)
    | .float x => .ok (.double x)
    | .time t => .ok (.dateTime t)
    | .text => .ok (.ofString s)
  | .sequence _ _ items => do .ok (.ofItems .object (← valuesOf usual items))
  | .mapping _ _ ks vs => do
    let named := ks.all fun k => k.tagName == "!!str"
    let keys ← valuesOf (usual && named) ks
    let values ← valuesOf (usual && named) vs
    .ok (.map (if named then .string else .object) .object .fresh keys values)

def valuesOf (usual : Bool) : List Node → Except Fault (List Value)
  | [] => .ok []
  | n :: rest => do
    let v ← valueOf usual n
    let vs ← valuesOf usual rest
    .ok (v :: vs)

end

def fieldText (n : Node) : Except Fault (String × List String) := do
  match n with
  | .scalar _ tag plain s =>
    match ← Datum.of tag plain s with
    | .null => .ok ("", [])
    | _ => .ok (s, [])
  | n => .ok ("", [misfit n "string"])

def complained (cs : List String) : Except Fault Unit :=
  if cs.isEmpty then .ok ()
  else .error ⟨"unmarshal errors:\n  " ++ "\n  ".intercalate cs, 0⟩

def Node.isNull (n : Node) : Bool := n.tagName == "!!null"

def namedValues (document : List Char) : Except Fault (List (String × Value)) := do
  match ← Node.read? document with
  | none => .ok []
  | some (.mapping _ _ ks vs) =>
    complained (repeatedKeys ks)
    let misplaced := ks.flatMap fun k => match k with
      | .scalar .. => []
      | k => [misfit k "string"]
    complained (misplaced ++ complaintsOf vs)
    let values ← valuesOf true vs
    let entries := ((ks.zip values).filter fun p => !p.1.isNull).map fun p => (p.1.text, p.2)
    .ok (entries.mergeSort fun a b => a.1 ≤ b.1)
  | some n =>
    if n.isNull then .ok []
    else do
      complained [misfit n "map[string]interface \x7b\x7d"]
      .ok []

def lookup? (name : String) (ks vs : List Node) : Option Node :=
  ((ks.zip vs).find? (·.1.text == name)).map (·.2)

/-- The fields of a formula: its name and its text. A formula that is nothing is left out. -/
def formulaOf (n : Node) : Except Fault (Option (String × String) × List String) := do
  match n with
  | .mapping _ _ ks vs =>
    match repeatedKeys ks with
    | [] =>
      let get (name : String) : Except Fault (String × List String) :=
        match lookup? name ks vs with
        | some v => fieldText v
        | none => .ok ("", [])
      let (name, cs) ← get "name"
      let (text, ds) ← get "expression"
      .ok (some (name, text), cs ++ ds)
    | cs => .ok (none, cs)
  | n => .ok (none, if n.isNull then [] else [misfit n "main.formula"])

def formulas (document : List Char) : Except Fault (List (String × String)) := do
  match ← Node.read? document with
  | none => .ok []
  | some (.mapping _ _ ks vs) =>
    complained (repeatedKeys ks)
    match lookup? "formulas" ks vs with
    | none => .ok []
    | some (.sequence _ _ items) =>
      let read ← items.mapM formulaOf
      complained (read.flatMap (·.2))
      .ok (read.filterMap (·.1))
    | some n =>
      if n.isNull then .ok []
      else do
        complained [misfit n "[]main.formula"]
        .ok []
  | some n =>
    if n.isNull then .ok []
    else do
      complained [misfit n "main.batchFile"]
      .ok []

end Formulary.Yaml
