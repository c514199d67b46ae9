import Formulary.Proofs.Build.Walk

/-!
# Building by any resolution

A tree is built from what its names, types, literals and operators are resolved to. Here they are
resolved by any functions at all, and a walk that stops says whether one of these refused or whether
it is the tree that lacks what the walk takes for granted. By the resolution of a scope the walk
gives what building in the scope gives.
-/

namespace Formulary.Build

open Grammar (Form Tree)
open Lexical (Kind Token)

/-- What a walk takes for granted of a tree, and misses: a child, what a child was built to, a child
that was built to anything, a form or a token that it knows, a target to search, or a value of the
whole. -/
inductive Lapse where
  | noChild
  | wrongValue
  | noValues
  | unexpectedForm (name : String)
  | invalidTarget
  | unexpectedToken (t : Token)
  | noValue

def Lapse.failure : Lapse → Failure
  | .noChild | .wrongValue | .noValues => .broken none
  | .unexpectedForm name => .compile { reason := .syntaxError, detail := s!"unexpected {name}" }
  | .invalidTarget => .compile { reason := .syntaxError, detail := "invalid in target" }
  | .unexpectedToken t =>
    .compile { reason := .syntaxError, detail := s!"unexpected token {t.kind.name}", token :=
      t.image.toString }
  | .noValue => .compile { reason := .syntaxError, detail := "expression has no value" }

/-- Why a walk stops: a failure, and the lapse it comes from unless the resolution refused. -/
structure Halt where
  failure : Failure
  lapse? : Option Lapse

def lapsed (l : Lapse) : Except Halt α := .error ⟨l.failure, some l⟩

def answered (r : Except Failure α) : Except Halt α := r.mapError (⟨·, none⟩)

def haltedAt (position : Nat) (r : Except Halt α) : Except Halt α :=
  r.mapError fun h => { h with failure := h.failure.placed position }

/-- A walk without the reason why it stops. -/
def outcome (r : Except Halt α) : Except Failure α := r.mapError Halt.failure

def isLiteral : Kind → Bool
  | .integer | .real | .hex | .string | .char | .dateTime | .timeSpan | .yes | .no | .null => true
  | _ => false

/-- How literals, operators, types and names are resolved. -/
structure Resolution where
  literal : Token → Except Failure Element
  logical : Operator → Element → Element → Except Failure Element
  negation : Element → Except Failure Element
  amongList : Element → List Element → Except Failure Element
  amongCollection : Element → Element → Except Failure Element
  shift : Bool → Element → Element → Except Failure Element
  compare : Operator → Element → Element → Except Failure Element
  arithmetic : Operator → Element → Element → Except Failure Element
  minus : Element → Except Failure Element
  choice : Element → Element → Element → Except Failure Element
  cast : Element → Ty → Except Failure Element
  type : List String → Except Failure Ty
  first : Reference → Except Failure Subject
  next : Subject → Reference → Except Failure Subject
  index : Subject → List Element → Except Failure Subject
  settle : Subject → Except Failure Element

def resolutionOf (s : Scope) : Resolution where
  literal := literal s.options
  logical := logical s
  negation := negation s
  amongList := amongList s
  amongCollection := amongCollection s
  shift := shift s
  compare := compare s
  arithmetic := arithmetic s
  minus := minus s
  choice := choice s
  cast := cast s
  type path :=
    match Imports.resolveType s.imports path s.options.caseSensitive with
    | some t => .ok t
    | none =>
      let name := ".".intercalate path
      refusedAt .undefinedName s!"type {Text.quoteString name} is not defined" name
  first := first s
  next := next s
  index := index s
  settle := Subject.element

namespace Resolution

def valueOf (p : Part) : Except Halt Element :=
  match p.built with
  | .value e => .ok e
  | _ => lapsed .wrongValue

def tokenOf (p : Part) : Option Token :=
  match p.built with
  | .token t => some t
  | _ => none

/-- An operand followed by operators and operands, folded from the left. -/
def fold (apply : Kind → Element → Element → Except Failure Element) (acc : Element) : List Part →
    Except Halt Element
  | op :: operand :: rest =>
    match op.built with
    | .token t => do
      let r ← valueOf operand
      let acc ← haltedAt op.place.offset (answered (apply t.kind acc r))
      fold apply acc rest
    | _ => lapsed .wrongValue
  | _ => .ok acc

def operatorChain (apply : Kind → Element → Element → Except Failure Element) : List Part →
    Except Halt Attribute
  | p :: rest => do
    let acc ← valueOf p
    (fold apply acc rest).map .value
  | [] => lapsed .noChild

section Walk

variable (r : Resolution)

/-- The first link of a chain of names, members and indexes. -/
def firstLink : Attribute → Except Halt Subject
  | .token t =>
    if isLiteral t.kind then (answered (r.literal t)).map .value else lapsed (.unexpectedToken t)
  | .name x => answered (r.first x)
  | .value e => .ok (.value e)
  | _ => lapsed .wrongValue

def nextLink (subject : Subject) : Attribute → Except Halt Subject
  | .member x => answered (r.next subject x)
  | .index es => answered (r.index subject es)
  | _ => lapsed .wrongValue

def laterLinks (subject : Subject) : List Part → Except Halt Subject
  | [] => .ok subject
  | p :: rest => do
    let subject ← haltedAt p.place.offset (r.nextLink subject p.built)
    laterLinks subject rest

/-- A chain of names, members and indexes. -/
def linkChain : List Part → Except Halt Attribute
  | [] => lapsed .noChild
  | p :: rest => do
    let subject ← haltedAt p.place.offset (r.firstLink p.built)
    let subject ← r.laterLinks subject rest
    (answered (r.settle subject)).map .value

def castType (parts : List Part) : Except Halt Attribute :=
  let tokens := parts.filterMap tokenOf
  let path := (tokens.filter (·.kind == .identifier)).map fun t => identifier t.image
  (answered (r.type path)).map fun t => .type
    (if tokens.any (·.kind == .bracketOpen) then .slice t else t)

def membership (operand : Element) : Attribute → Except Halt Element
  | .list items => answered (r.amongList operand items)
  | .value collection => answered (r.amongCollection operand collection)
  | _ => lapsed .invalidTarget

/-- What a node is built to, given what its children were built to. -/
def combine (form : Form) (name : String) (parts : List Part) : Except Halt Attribute :=
  match form with
  | .expression | .paren =>
    match parts.filter Part.isBuilt with
    | p :: _ => .ok p.built
    | [] => lapsed .noValues
  | .xor | .or | .and => operatorChain (fun k => r.logical (operatorOf k)) parts
  | .not =>
    match parts with
    | ⟨_, .token t⟩ :: rest =>
      match t.kind, rest with
      | .not, p :: _ => do
        let e ← valueOf p
        (answered (r.negation e)).map .value
      | .not, [] => lapsed .noChild
      | _, _ => lapsed .wrongValue
    | p :: _ => .ok p.built
    | [] => lapsed .noChild
  | .among =>
    match parts with
    | [p] => .ok p.built
    | p :: _ :: target :: _ => do
      let operand ← valueOf p
      (r.membership operand target.built).map .value
    | _ => lapsed .noChild
  | .list =>
    match parts with
    | _ :: ⟨_, .arguments es⟩ :: _ => .ok (.list es)
    | _ :: _ :: _ => lapsed .wrongValue
    | _ => lapsed .noChild
  | .collection | .chain => r.linkChain parts
  | .shift => operatorChain (fun k => r.shift (k == .shiftLeft)) parts
  | .compare => operatorChain (fun k => r.compare (operatorOf k)) parts
  | .sum | .product | .power => operatorChain (fun k => r.arithmetic (operatorOf k)) parts
  | .negate =>
    match parts with
    | ⟨_, .token t⟩ :: rest =>
      match t.kind, rest with
      | .minus, p :: _ => do
        let e ← valueOf p
        (answered (r.minus e)).map .value
      | .minus, [] => lapsed .noChild
      | _, _ => lapsed .wrongValue
    | p :: _ => .ok p.built
    | [] => lapsed .noChild
  | .choice =>
    match parts.filter Part.isBuilt with
    | c :: t :: f :: _ => do
      let c ← valueOf c
      let t ← valueOf t
      let f ← valueOf f
      (answered (r.choice c t f)).map .value
    | _ => lapsed .noValues
  | .cast =>
    match parts.filter Part.isBuilt with
    | p :: ⟨_, .type t⟩ :: _ => do
      let e ← valueOf p
      (answered (r.cast e t)).map .value
    | _ :: _ :: _ => lapsed .wrongValue
    | _ => lapsed .noValues
  | .castType => r.castType parts
  | .name =>
    match parts with
    | [⟨_, .token t⟩] => .ok (.name ⟨identifier t.image, none⟩)
    | ⟨_, .token t⟩ :: ⟨_, .arguments es⟩ :: _ => .ok (.name ⟨identifier t.image, some es⟩)
    | [] => lapsed .noChild
    | _ => lapsed .wrongValue
  | .arguments =>
    match parts with
    | [_, ⟨_, .arguments es⟩, _] => .ok (.arguments es)
    | [_, _, _] => lapsed .wrongValue
    | _ => .ok (.arguments [])
  | .argumentList => ((parts.filter Part.isBuilt).mapM valueOf).map .arguments
  | .member =>
    match parts with
    | _ :: ⟨_, .name x⟩ :: _ => .ok (.member x)
    | _ :: _ :: _ => lapsed .wrongValue
    | _ => lapsed .noChild
  | .index =>
    match parts with
    | _ :: ⟨_, .arguments es⟩ :: _ => .ok (.index es)
    | _ :: _ :: _ => lapsed .wrongValue
    | _ => lapsed .noChild
  | _ => lapsed (.unexpectedForm name)

mutual

def build : Tree → Except Halt Attribute
  | .leaf t => .ok (.token t)
  | .node rule name place children => do
    let parts ← buildAll children
    haltedAt place.offset <|
      match Form.ofNumber? rule with
      | some form => r.combine form name parts
      | none => lapsed (.unexpectedForm name)

/-- What the children of a node are built to. -/
def buildAll : List Tree → Except Halt (List Part)
  | [] => .ok []
  | t :: rest => do
    let a ← build t
    let parts ← buildAll rest
    .ok (⟨t.place, a⟩ :: parts)

end

/-- The element of a whole text's tree. -/
def element (t : Tree) : Except Halt Element := do
  match ← r.build t with
  | .value e => .ok e
  | _ => lapsed .noValue

end Walk

end Resolution

section Outcome

variable {α β : Type}

@[simp] theorem outcome_ok (a : α) : outcome (.ok a) = .ok a := rfl

@[simp] theorem outcome_lapsed (l : Lapse) : outcome (lapsed l : Except Halt α) =
    .error l.failure := rfl

@[simp] theorem outcome_answered (x : Except Failure α) : outcome (answered x) = x := by
  cases x <;> rfl

@[simp] theorem outcome_bind (x : Except Halt α) (f : α → Except Halt β) :
    outcome (x >>= f) = outcome x >>= fun a => outcome (f a) := by
  cases x <;> rfl

@[simp] theorem outcome_map (x : Except Halt α) (f : α → β) :
    outcome (x.map f) = (outcome x).map f := by
  cases x <;> rfl

@[simp] theorem outcome_haltedAt (position : Nat) (x : Except Halt α) :
    outcome (haltedAt position x) = placedAt position (outcome x) := by
  cases x <;> rfl

end Outcome

/-- A token that is no literal has no constant. -/
theorem literal_of_not_isLiteral (o : Options) {t : Token} (h : ¬isLiteral t.kind = true) :
    literal o t = .error (Lapse.unexpectedToken t).failure := by
  unfold literal
  cases hk : t.kind <;> simp [hk, isLiteral] at h <;> simp [refusedAt, Lapse.failure, hk]

namespace Resolution

@[simp] theorem outcome_valueOf (p : Part) : outcome (valueOf p) = p.element := by
  unfold valueOf Part.element
  cases p.built <;> rfl

theorem outcome_fold (apply : Kind → Element → Element → Except Failure Element) (parts : List Part)
    (acc : Element) :
    outcome (fold apply acc parts) = Build.fold apply acc parts := by
  fun_induction Build.fold apply acc parts with
  | case1 acc op operand rest t ht ih => simp [fold, ht, ih]
  | case2 acc op operand rest hbuilt =>
    rw [fold]
    split
    · rename_i t ht
      exact absurd ht (hbuilt t)
    · rfl
  | case3 acc parts hshort =>
    rw [fold]
    · rfl
    · exact hshort

@[simp] theorem outcome_operatorChain (apply : Kind → Element → Element → Except Failure Element)
    (parts : List Part) :
    outcome (operatorChain apply parts) = Build.operatorChain apply parts := by
  cases parts with
  | nil => rfl
  | cons p rest => simp [operatorChain, Build.operatorChain, outcome_fold]

section OfScope

variable (s : Scope)

theorem outcome_firstLink (a : Attribute) : outcome ((resolutionOf s).firstLink a) =
    Build.firstLink s a := by
  cases a with
  | token t =>
    by_cases h : isLiteral t.kind = true
    · simp [firstLink, Build.firstLink, h, resolutionOf]
    · simp [firstLink, Build.firstLink, h, literal_of_not_isLiteral s.options h, Except.map]
  | name x => exact outcome_answered _
  | _ => rfl

theorem outcome_nextLink (subject : Subject) (a : Attribute) :
    outcome ((resolutionOf s).nextLink subject a) = Build.nextLink s subject a := by
  cases a with
  | member x => exact outcome_answered _
  | index es => exact outcome_answered _
  | _ => rfl

theorem outcome_laterLinks (subject : Subject) (parts : List Part) :
    outcome ((resolutionOf s).laterLinks subject parts) = Build.laterLinks s subject parts := by
  induction parts generalizing subject with
  | nil => rfl
  | cons p parts ih => simp [laterLinks, Build.laterLinks, outcome_nextLink, ih]

@[simp] theorem outcome_linkChain (parts : List Part) :
    outcome ((resolutionOf s).linkChain parts) = Build.linkChain s parts := by
  cases parts with
  | nil => rfl
  | cons p parts =>
    simp [linkChain, Build.linkChain, outcome_firstLink, outcome_laterLinks]
    rfl

@[simp] theorem outcome_castType (parts : List Part) :
    outcome ((resolutionOf s).castType parts) = Build.castType s parts := by
  have htokens : parts.filterMap tokenOf =
      parts.filterMap fun p => match p.built with | .token t => some t | _ => none := rfl
  simp only [castType, Build.castType, outcome_map, outcome_answered, resolutionOf, htokens]
  generalize parts.filterMap _ = tokens
  cases Imports.resolveType s.imports _ s.options.caseSensitive <;> rfl

@[simp] theorem outcome_membership (operand : Element) (a : Attribute) :
    outcome ((resolutionOf s).membership operand a) = Build.membership s operand a := by
  cases a with
  | list items => exact outcome_answered _
  | value e => exact outcome_answered _
  | _ => rfl

theorem outcome_mapM_valueOf (parts : List Part) :
    outcome (parts.mapM valueOf) = parts.mapM Part.element := by
  induction parts with
  | nil => rfl
  | cons p parts ih =>
    rw [List.mapM_cons, List.mapM_cons]
    simp only [outcome_bind, outcome_valueOf, ih]
    rfl

/-- A node is built to the same by the resolution of a scope and in the scope. -/
theorem outcome_combine (form : Form) (name : String) (parts : List Part) :
    outcome ((resolutionOf s).combine form name parts) = Build.combine s form name parts := by
  cases form with
  | expression | paren =>
    simp only [combine, Build.combine]
    cases parts.filter Part.isBuilt <;> rfl
  | xor | or | and | shift | compare | sum | product | power => exact outcome_operatorChain _ parts
  | collection | chain => exact outcome_linkChain s parts
  | castType => exact outcome_castType s parts
  | not =>
    rcases parts with _ | ⟨⟨place, built⟩, rest⟩
    · rfl
    · cases built with
      | token t =>
        simp only [combine, Build.combine]
        cases hk : t.kind <;> cases rest <;> simp <;> rfl
      | _ => rfl
  | among =>
    rcases parts with _ | ⟨p, _ | ⟨q, _ | ⟨target, rest⟩⟩⟩
    · rfl
    · rfl
    · rfl
    · simp [combine, Build.combine]
  | list =>
    rcases parts with _ | ⟨p, _ | ⟨⟨place, built⟩, rest⟩⟩
    · rfl
    · rfl
    · cases built <;> rfl
  | negate =>
    rcases parts with _ | ⟨⟨place, built⟩, rest⟩
    · rfl
    · cases built with
      | token t =>
        simp only [combine, Build.combine]
        cases hk : t.kind <;> cases rest <;> simp <;> rfl
      | _ => rfl
  | choice =>
    simp only [combine, Build.combine]
    rcases parts.filter Part.isBuilt with _ | ⟨c, _ | ⟨t, _ | ⟨f, rest⟩⟩⟩
    · rfl
    · rfl
    · rfl
    · simp
      rfl
  | cast =>
    simp only [combine, Build.combine]
    rcases parts.filter Part.isBuilt with _ | ⟨p, _ | ⟨⟨place, built⟩, rest⟩⟩
    · rfl
    · rfl
    · cases built with
      | type t =>
        simp
        rfl
      | _ => rfl
  | name =>
    rcases parts with _ | ⟨⟨place, built⟩, _ | ⟨⟨place', built'⟩, rest⟩⟩
    · rfl
    · cases built <;> rfl
    · cases built with
      | token t => cases built' <;> rfl
      | _ => rfl
  | arguments =>
    rcases parts with _ | ⟨p, _ | ⟨⟨place, built⟩, _ | ⟨q, _ | ⟨q', rest⟩⟩⟩⟩
    · rfl
    · rfl
    · cases built <;> rfl
    · cases built <;> rfl
    · cases built <;> rfl
  | argumentList =>
    simp only [combine, Build.combine, outcome_map, outcome_mapM_valueOf]
    cases (parts.filter Part.isBuilt).mapM Part.element <;> rfl
  | member =>
    rcases parts with _ | ⟨p, _ | ⟨⟨place, built⟩, rest⟩⟩
    · rfl
    · rfl
    · cases built <;> rfl
  | index =>
    rcases parts with _ | ⟨p, _ | ⟨⟨place, built⟩, rest⟩⟩
    · rfl
    · rfl
    · cases built <;> rfl
  | _ => rfl

mutual

theorem outcome_build (t : Tree) : outcome ((resolutionOf s).build t) = Build.build s t := by
  cases t with
  | leaf t => rfl
  | node rule name place children =>
    simp only [build, Build.build, outcome_bind, outcome_buildAll children, outcome_haltedAt]
    cases Form.ofNumber? rule with
    | none => rfl
    | some form => simp [outcome_combine]

theorem outcome_buildAll (ts : List Tree) : outcome ((resolutionOf s).buildAll ts) =
    Build.buildAll s ts := by
  cases ts with
  | nil => rfl
  | cons t ts => simp [buildAll, Build.buildAll, outcome_build t, outcome_buildAll ts]

end

/-- By the resolution of a scope the walk gives what building in the scope gives. -/
theorem outcome_element (t : Tree) : outcome ((resolutionOf s).element t) = Build.element s t := by
  simp only [element, Build.element, outcome_bind, outcome_build]
  congr 1
  funext a
  cases a <;> rfl

end OfScope

end Resolution

end Formulary.Build
