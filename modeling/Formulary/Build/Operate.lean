import Formulary.Build.Literal
import Formulary.Typing.Builtin
import Formulary.Typing.Overload

/-!
# Operators of typed operands

Which operation an operator stands for, given the types of its operands. Overloads of the host come
before built-in ones, and those before the operators of numbers, enumerations and objects.
-/

namespace Formulary.Build

open Overload (Candidate Match Scale)

/-- The failure of an operator that does not take two types. -/
def unfit (op : Operator) (l r : Element) : Except Failure α :=
  mismatch s!"operator {op.symbol} cannot be applied to {l.type.name} and {r.type.name}"

def both (s : Scope) (l r : Element) (t : Ty) : Except Failure (Element × Element) := do
  let l ← s.implicit l t
  let r ← s.implicit r t
  .ok (l, r)

def declaresOverloads (t : Ty) : Bool := !(t.isNumeric || t == .bool || t == .string || t == .null)

def overloadCandidate (op : Operator) (entry : Function × Nat) : Candidate (Function × Nat) :=
  { name := op.symbol, params := entry.1.signature.params, payload := entry }

/-- The best overload with a parameter of one operand's type; `none` if there is none. -/
def overloadThrough? (s : Scope) (op : Operator) (candidates : List (Candidate (Function × Nat)))
    (args : List Ty)
    (t : Ty) : Except Failure (Option (Match (Function × Nat) Float)) :=
  let declared := if declaresOverloads t then candidates.filter fun c => c.params.contains t else []
  match Overload.resolve Scale.double s.score declared args with
  | .ok m => .ok (some m)
  | .error .none => .ok none
  | .error fault => .error (fault.failure op.symbol args)

/-- The overload of an operator for operands of some types. Overloads found through the left and the
right operand must agree. -/
def overload? (s : Scope) (op : Operator) (ops : Operators) (args : List Ty) :
    Except Failure (Option Function) := do
  let fns :=
    match args with
    | [t] => ops.unaryOn op t
    | [t, u] => ops.binaryOn op t u
    | _ => []
  let candidates := fns.zipIdx.map (overloadCandidate op)
  let found ← args.eraseDups.mapM (overloadThrough? s op candidates args)
  match found.filterMap id with
  | [] => .ok none
  | [m] => .ok (some m.candidate.payload.1)
  | m :: n :: _ =>
    if m.candidate.payload.2 == n.candidate.payload.2 then .ok (some m.candidate.payload.1)
    else
      refused .ambiguousMatch
        s!"operator {op.symbol} is ambiguous between {m.candidate.signature} and {n.candidate.signature}"

def anyOverload? (s : Scope) (op : Operator) (args : List Ty) :
    Except Failure (Option Function) := do
  match ← overload? s op s.operators args with
  | some f => .ok (some f)
  | none => overload? s op Builtin.operators args

def overloadedBinary? (s : Scope) (op : Operator) (l r : Element) :
    Except Failure (Option Element) := do
  match ← anyOverload? s op [l.type, r.type] with
  | none => .ok none
  | some f =>
    match f.signature.params, f.signature.results with
    | [p, q], t :: _ => do
      let l ← s.implicit l p
      let r ← s.implicit r q
      .ok (some (.binary (.overload op f) t l r))
    | _, _ => .ok none

def overloadedUnary? (s : Scope) (op : Operator) (e : Element) :
    Except Failure (Option Element) := do
  match ← anyOverload? s op [e.type] with
  | none => .ok none
  | some f =>
    match f.signature.params, f.signature.results with
    | [p], t :: _ => do
      let e ← s.implicit e p
      .ok (some (.unary (.overload op f) t e))
    | _, _ => .ok none

/-- Sums, differences, products, quotients, remainders and powers; a sum with a string joins
texts. -/
def arithmetic (s : Scope) (op : Operator) (l r : Element) : Except Failure Element := do
  if op == .add && (l.type == .string || r.type == .string) then .ok (.binary .concat .string l r)
  else
    match ← overloadedBinary? s op l r with
    | some e => .ok e
    | none =>
      if op == .power then
        if l.type.isNumeric && r.type.isNumeric then do
          let (l, r) ← both s l r .double
          .ok (.binary .power .double l r)
        else unfit op l r
      else
        match Typing.operandType? l.type r.type with
        | none => unfit op l r
        | some t => do
          let t := Typing.widened t
          let (l, r) ← both s l r t
          .ok (.binary (.arithmetic op t s.options.checked) t l r)

/-- Whether two objects of some types can be compared for equality: values of one comparable type, a
string with null, or references one of which fits the other. -/
def areComparable (host : Host) (l r : Ty) : Bool :=
  (l == r && (host.isComparable l || l.isNullable)) || (l == .string && r == .null) ||
    (l == .null && r == .string) ||
    (l.isNullable && r.isNullable &&
      (l == .null || r == .null || host.isAssignable l r || host.isAssignable r l))

def compare (s : Scope) (op : Operator) (l r : Element) : Except Failure Element := do
  if l.type == .string && r.type == .string then
    if op.isEquality then
      .ok (.binary (.textEqual s.options.ignoreCase (op == .notEqual)) .bool l r)
    else unfit op l r
  else
    match ← overloadedBinary? s op l r with
    | some e => .ok e
    | none =>
      match Typing.operandType? l.type r.type with
      | some t => do
        let t := Typing.widened t
        let (l, r) ← both s l r t
        .ok (.binary (.compare op t) .bool l r)
      | none =>
        if !op.isEquality then
          if l.type == r.type && l.type.isEnum then .ok (.binary (.compareEnum op) .bool l r)
          else unfit op l r
        else if areComparable s.host l.type r.type then
          .ok (.binary (.sameObject (op == .notEqual)) .bool l r)
        else unfit op l r

def shift (s : Scope) (left : Bool) (l r : Element) : Except Failure Element := do
  match Typing.shiftType? l.type with
  | none => mismatch s!"cannot shift a value of type {l.type.name}"
  | some t =>
    let l ← s.implicit l t
    match s.implicit r (.int .int) with
    | .ok count => .ok (.binary (.shift left t) t l count)
    | .error _ => mismatch s!"shift count must be an int, got {r.type.name}"

/-- `and`, `or` and `xor`: over booleans, by overloads, or over the bits of integers. -/
def logical (s : Scope) (op : Operator) (l r : Element) : Except Failure Element := do
  if l.type == .bool && r.type == .bool then
    match op with
    | .and => .ok (.logic (.join .and l.condition r.condition))
    | .or => .ok (.logic (.join .or l.condition r.condition))
    | _ => .ok (.binary .exclusive .bool l r)
  else
    match ← overloadedBinary? s op l r with
    | some e => .ok e
    | none =>
      match Typing.bitwiseType? l.type r.type with
      | none => unfit op l r
      | some t => do
        let t := Typing.widened t
        let (l, r) ← both s l r t
        .ok (.binary (.bitwise op t) t l r)

/-- `not`: of a boolean, of the bits of an integer, or by an overload. -/
def negation (s : Scope) (e : Element) : Except Failure Element := do
  if e.type == .bool then .ok (.unary .not .bool e)
  else if e.type.isIntegral then .ok (.unary .complement e.type e)
  else
    match ← overloadedUnary? s .not e with
    | some u => .ok u
    | none => mismatch s!"operator not cannot be applied to {e.type.name}"

/-- A minus sign: before a numeral it becomes part of it. -/
def minus (s : Scope) (e : Element) : Except Failure Element := do
  match e with
  | .constant _ _ (some n) => number s.options n.kind n.image true
  | e =>
    match ← overloadedUnary? s .negate e with
    | some u => .ok u
    | none =>
      match Typing.negateType? e.type with
      | none => mismatch s!"operator - cannot be applied to {e.type.name}"
      | some t => do
        let e ← s.implicit e t
        .ok (.unary (.negate t s.options.checked) t e)

/-- A choice, whose branches meet at the wider of their types. -/
def choice (s : Scope) (condition whenTrue whenFalse : Element) : Except Failure Element := do
  if condition.type != .bool then
    mismatch s!"if condition must be boolean, got {condition.type.name}"
  else
    let t := whenTrue.type
    let u := whenFalse.type
    let meet :=
      if t == u then some t
      else if s.converts t u then some u
      else if s.converts u t then some t
      else none
    match meet with
    | none => mismatch s!"if branches have incompatible types {t.name} and {u.name}"
    | some m => do
      let (a, b) ← both s whenTrue whenFalse m
      .ok (.choose m condition a b)

def cast (s : Scope) (e : Element) (t : Ty) : Except Failure Element :=
  let found :=
    if s.options.checked then Typing.checkedExplicit? s.host s.operators e.type t
    else Typing.explicit? s.host s.operators e.type t
  match found with
  | some how => .ok (.convert "cast" how t e)
  | none => refused .invalidCast s!"cannot cast {e.type.name} to {t.name}"

def amongList (s : Scope) (operand : Element) (items : List Element) : Except Failure Element := do
  let tests ← items.mapM fun item => compare s .equal (.duplicate operand.type) item
  .ok (.among operand tests)

/-- The type of what a collection is searched for: its items, or the keys of a map. -/
def searchedType? : Ty → Option Ty
  | .slice t _ | .array _ t _ | .map t _ _
  | .pointer (.slice t _) _ | .pointer (.array _ t _) _ | .pointer (.map t _ _) _ => some t
  | _ => none

/-- A test whether a collection holds a value. -/
def amongCollection (s : Scope) (operand collection : Element) : Except Failure Element := do
  match searchedType? collection.type with
  | none => mismatch s!"in: {collection.type.name} is not a collection"
  | some t =>
    let operand ← s.implicit operand t
    .ok (.contains collection operand)

/-- The type of the items of a collection, and the type of its keys if it is a map. -/
def itemType? : Ty → Option (Ty × Option Ty)
  | .string => some (.char, none)
  | .slice t _ | .array _ t _ | .pointer (.array _ t _) _ => some (t, none)
  | .map k t _ => some (t, some k)
  | _ => none

def indexOne (s : Scope) (collection position : Element) : Except Failure Element :=
  match itemType? collection.type with
  | none => mismatch s!"a value of type {collection.type.name} cannot be indexed"
  | some (t, some key) => do
    let position ← s.implicit position key
    .ok (.index t collection position)
  | some (t, none) =>
    if position.type.isIntegral then .ok (.index t collection position)
    else mismatch s!"index must be an integer, got {position.type.name}"

end Formulary.Build
