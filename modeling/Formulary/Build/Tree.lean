import Formulary.Build.Resolve
import Formulary.Grammar.Parse

/-!
# From parse trees to elements

Each node of a parse tree is built from what its children were built to, the children from left to
right. A failure points to the operator or the link of a chain it comes from, or else to the start
of its node.
-/

namespace Formulary.Build

open Grammar (Form Tree)
open Lexical (Kind Place Token)

inductive Attribute where
  | token (t : Token)
  | value (e : Element)
  | arguments (es : List Element)
  | list (es : List Element)
  | name (r : Reference)
  | member (r : Reference)
  | index (es : List Element)
  | type (t : Ty)

structure Part where
  place : Place
  built : Attribute

/-- The failure of a node whose children are not the ones its rule promises. -/
def misshapen : Except Failure α := .error (.broken none)

def operatorOf : Kind → Operator
  | .plus => .add
  | .minus => .subtract
  | .times => .multiply
  | .divide => .divide
  | .mod => .modulo
  | .power => .power
  | .equal => .equal
  | .notEqual => .notEqual
  | .less => .less
  | .lessEqual => .lessEqual
  | .greater => .greater
  | .greaterEqual => .greaterEqual
  | .and => .and
  | .or => .or
  | _ => .xor

/-- The name of an identifier, without the mark that makes a keyword one. -/
def identifier (image : Text) : String :=
  match image with
  | 0x40 :: rest => Text.toString rest
  | image => image.toString

def Part.element (p : Part) : Except Failure Element :=
  match p.built with
  | .value e => .ok e
  | _ => misshapen

def Part.isBuilt (p : Part) : Bool :=
  match p.built with
  | .token _ => false
  | _ => true

/-- An operand followed by operators and operands, folded from the left. -/
def fold (apply : Kind → Element → Element → Except Failure Element) (acc : Element) :
    List Part → Except Failure Element
  | op :: operand :: rest =>
    match op.built with
    | .token t => do
      let r ← operand.element
      let acc ← placedAt op.place.offset (apply t.kind acc r)
      fold apply acc rest
    | _ => misshapen
  | _ => .ok acc

def operatorChain (apply : Kind → Element → Element → Except Failure Element) :
    List Part → Except Failure Attribute
  | p :: rest => do
    let acc ← p.element
    (fold apply acc rest).map .value
  | [] => misshapen

/-- The first link of a chain of names, members and indexes. -/
def firstLink (s : Scope) (a : Attribute) : Except Failure Subject :=
  match a with
  | .token t => (literal s.options t).map .value
  | .name r => first s r
  | .value e => .ok (.value e)
  | _ => misshapen

def nextLink (s : Scope) (subject : Subject) (a : Attribute) : Except Failure Subject :=
  match a with
  | .member r => next s subject r
  | .index es => index s subject es
  | _ => misshapen

def laterLinks (s : Scope) (subject : Subject) : List Part → Except Failure Subject
  | [] => .ok subject
  | p :: rest => do
    let subject ← placedAt p.place.offset (nextLink s subject p.built)
    laterLinks s subject rest

/-- A chain of names, members and indexes. -/
def linkChain (s : Scope) : List Part → Except Failure Attribute
  | [] => misshapen
  | p :: rest => do
    let subject ← placedAt p.place.offset (firstLink s p.built)
    let subject ← laterLinks s subject rest
    subject.element.map .value

def castType (s : Scope) (parts : List Part) : Except Failure Attribute :=
  let tokens := parts.filterMap fun p => match p.built with | .token t => some t | _ => none
  let path := (tokens.filter (·.kind == .identifier)).map fun t => identifier t.image
  match Imports.resolveType s.imports path s.options.caseSensitive with
  | some t => .ok (.type (if tokens.any (·.kind == .bracketOpen) then .slice t else t))
  | none =>
    let name := ".".intercalate path
    refusedAt .undefinedName s!"type {Text.quoteString name} is not defined" name

def membership (s : Scope) (operand : Element) (target : Attribute) : Except Failure Element :=
  match target with
  | .list items => amongList s operand items
  | .value collection => amongCollection s operand collection
  | _ => refused .syntaxError "invalid in target"

/-- What a node is built to, given what its children were built to. -/
def combine (s : Scope) (form : Form) (name : String) (parts : List Part) :
    Except Failure Attribute :=
  match form, parts with
  | .expression, ps | .paren, ps =>
    match ps.filter Part.isBuilt with
    | p :: _ => .ok p.built
    | [] => misshapen
  | .xor, ps | .or, ps | .and, ps => operatorChain (fun k => logical s (operatorOf k)) ps
  | .not, ⟨_, .token t⟩ :: rest =>
    match t.kind, rest with
    | .not, p :: _ => do
      let e ← p.element
      (negation s e).map .value
    | _, _ => misshapen
  | .not, p :: _ => .ok p.built
  | .among, [p] => .ok p.built
  | .among, p :: _ :: target :: _ => do
    let operand ← p.element
    (membership s operand target.built).map .value
  | .list, _ :: p :: _ =>
    match p.built with
    | .arguments es => .ok (.list es)
    | _ => misshapen
  | .collection, ps | .chain, ps => linkChain s ps
  | .shift, ps => operatorChain (fun k => shift s (k == .shiftLeft)) ps
  | .compare, ps => operatorChain (fun k => compare s (operatorOf k)) ps
  | .sum, ps | .product, ps | .power, ps => operatorChain (fun k => arithmetic s (operatorOf k)) ps
  | .negate, ⟨_, .token t⟩ :: rest =>
    match t.kind, rest with
    | .minus, p :: _ => do
      let e ← p.element
      (minus s e).map .value
    | _, _ => misshapen
  | .negate, p :: _ => .ok p.built
  | .choice, ps =>
    match ps.filter Part.isBuilt with
    | c :: t :: f :: _ => do
      let c ← c.element
      let t ← t.element
      let f ← f.element
      (choice s c t f).map .value
    | _ => misshapen
  | .cast, ps =>
    match ps.filter Part.isBuilt with
    | p :: ⟨_, .type t⟩ :: _ => do
      let e ← p.element
      (cast s e t).map .value
    | _ => misshapen
  | .castType, ps => castType s ps
  | .name, ⟨_, .token t⟩ :: rest =>
    match rest with
    | [] => .ok (.name ⟨identifier t.image, none⟩)
    | ⟨_, .arguments es⟩ :: _ => .ok (.name ⟨identifier t.image, some es⟩)
    | _ => misshapen
  | .arguments, ps =>
    match ps with
    | [_, ⟨_, .arguments es⟩, _] => .ok (.arguments es)
    | [_, _, _] => misshapen
    | _ => .ok (.arguments [])
  | .argumentList, ps => do
    let es ← (ps.filter Part.isBuilt).mapM Part.element
    .ok (.arguments es)
  | .member, _ :: p :: _ =>
    match p.built with
    | .name r => .ok (.member r)
    | _ => misshapen
  | .index, _ :: p :: _ =>
    match p.built with
    | .arguments es => .ok (.index es)
    | _ => misshapen
  | .not, [] | .among, [] | .among, [_, _] | .list, _ | .negate, [] | .name, _ | .member, _
  | .index, _ => misshapen
  | _, _ => refused .syntaxError s!"unexpected {name}"

mutual

def build (s : Scope) : Tree → Except Failure Attribute
  | .leaf t => .ok (.token t)
  | .node rule name place children => do
    let parts ← buildAll s children
    placedAt place.offset <|
      match Form.ofNumber? rule with
      | some form => combine s form name parts
      | none => refused .syntaxError s!"unexpected {name}"

/-- What the children of a node are built to. -/
def buildAll (s : Scope) : List Tree → Except Failure (List Part)
  | [] => .ok []
  | t :: rest => do
    let a ← build s t
    let parts ← buildAll s rest
    .ok (⟨t.place, a⟩ :: parts)

end

def element (s : Scope) (t : Tree) : Except Failure Element := do
  match ← build s t with
  | .value e => .ok e
  | _ => refused .syntaxError "expression has no value"

end Formulary.Build
