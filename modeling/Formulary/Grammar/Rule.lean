import Formulary.Lexical.Token

/-!
# Grammars

A grammar is a list of rules with alternatives, each a sequence of elements that repeat between two
bounds. Which rules match nothing and which tokens each can start with is the least solution of
their equations.
-/

namespace Formulary.Grammar

open Lexical (Kind)

inductive Target where
  | token (kind : Kind)
  | rule (id : Nat)
  deriving DecidableEq, Repr

/-- A repeated target: at least `least` and at most `most` times, without limit if there is none. -/
structure Element where
  target : Target
  least : Nat
  most : Option Nat
  deriving DecidableEq, Repr

def unbounded : Int := 9223372036854775807

/-- An element from written bounds: a negative minimum is zero, a maximum that is not positive is no
limit, and a maximum below the minimum is raised to it. -/
def Element.bounded (target : Target) (least most : Int) : Element :=
  let least := max least 0
  let most := if most ≤ 0 then unbounded else max most least
  ⟨target, least.toNat, if most == unbounded then none else some most.toNat⟩

/-- Whether an element always matches the same number of times. -/
def Element.isFixed (e : Element) : Bool := e.most == some e.least

/-- Whether the bounds of an element are one number, which may be the one that means "without
limit". -/
def Element.sameBounds (e : Element) : Bool := e.most.getD unbounded.toNat == e.least

structure Rule where
  id : Nat
  name : String
  hidden : Bool
  alternatives : List (List Element)
  deriving DecidableEq, Repr

structure Facts where
  first : List Kind
  nullable : Bool
  deriving DecidableEq, Repr

/-- The union of two sets of kinds, in the order of all kinds. -/
def union (a b : List Kind) : List Kind := Kind.all.filter fun k => a.contains k || b.contains k

theorem mem_all (k : Kind) : k ∈ Kind.all := by
  cases k <;> decide

theorem mem_union {k : Kind} {a b : List Kind} : k ∈ union a b ↔ k ∈ a ∨ k ∈ b := by
  simp [union, mem_all]

/-- The common members of two sets of kinds, in the order of all kinds. -/
def overlap (a b : List Kind) : List Kind := Kind.all.filter fun k => a.contains k && b.contains k

structure RuleSet where
  start : Nat
  rules : List Rule
  deriving DecidableEq, Repr

/-- What is known of the rules, one entry for each. -/
abbrev Knowledge := List (Nat × Facts)

def Knowledge.get (known : Knowledge) (id : Nat) : Facts :=
  ((known.reverse.find? (·.1 == id)).map (·.2)).getD ⟨[], false⟩

def Element.facts (known : Knowledge) (e : Element) : Facts :=
  match e.target with
  | .token k => ⟨[k], e.least == 0⟩
  | .rule id =>
    let facts := known.get id
    ⟨facts.first, e.least == 0 || facts.nullable⟩

def sequenceFacts (known : Knowledge) : List Element → Facts
  | [] => ⟨[], true⟩
  | e :: rest =>
    let facts := e.facts known
    if facts.nullable then
      let more := sequenceFacts known rest
      ⟨union facts.first more.first, more.nullable⟩
    else ⟨union facts.first [], false⟩

def Rule.facts (known : Knowledge) (r : Rule) : Facts :=
  let each := r.alternatives.map (sequenceFacts known)
  ⟨each.foldl (fun set f => union set f.first) [], each.any (·.nullable)⟩

def RuleSet.learn (g : RuleSet) (known : Knowledge) : Knowledge :=
  g.rules.map fun r => (r.id, r.facts known)

/-- Rounds of learning until nothing changes. -/
def RuleSet.learnUpTo (g : RuleSet) : Nat → Knowledge → Knowledge
  | 0, known => known
  | n + 1, known =>
    let next := g.learn known
    if next == known then known else g.learnUpTo n next

/-- The facts of all rules. Every round but the last adds a kind to a set or makes a rule
nullable. -/
def RuleSet.facts (g : RuleSet) : Knowledge :=
  g.learnUpTo (g.rules.length * (Kind.all.length + 1) + 1) (g.rules.map fun r =>
    (r.id, ⟨[], false⟩))

structure ReadyElement where
  element : Element
  first : List Kind
  deriving DecidableEq, Repr

structure ReadyAlternative where
  elements : List ReadyElement
  first : List Kind
  nullable : Bool
  deriving DecidableEq, Repr

structure ReadyRule where
  id : Nat
  name : String
  hidden : Bool
  first : List Kind
  alternatives : List ReadyAlternative
  deriving DecidableEq, Repr, Inhabited

structure Ready where
  start : Nat
  rules : List ReadyRule
  deriving DecidableEq, Repr

def Ready.rule? (g : Ready) (id : Nat) : Option ReadyRule := g.rules.reverse.find? (·.id == id)

/-- A rule with its facts from the facts of all rules. -/
def Rule.ready (known : Knowledge) (r : Rule) : ReadyRule :=
  { id := r.id
    name := r.name
    hidden := r.hidden
    first := (r.facts known).first
    alternatives := r.alternatives.map fun es =>
      let facts := sequenceFacts known es
      ⟨es.map fun e => ⟨e, (e.facts known).first⟩, facts.first, facts.nullable⟩ }

end Formulary.Grammar
