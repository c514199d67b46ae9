import Formulary.Grammar.Rule

/-!
# Preparing grammars

A grammar is prepared in place. Its rules and alternatives start with empty sets, and rounds through
all of them add what they can start with and note which match nothing, with what is known at that
moment of the rules they refer to; an alternative counts at once for its own rule and for every
later one. The rounds end with the first that adds nothing to a rule. Then every element gets the
tokens it can start with, and a grammar that one token of lookahead cannot steer is refused at its
first fault.
-/

namespace Formulary.Grammar

open Lexical (Kind)

structure DraftRule extends ReadyRule where
  nullable : Bool
  deriving DecidableEq, Repr, Inhabited

structure Draft where
  start : Nat
  rules : List DraftRule
  prepared : Bool
  deriving DecidableEq, Repr

/-- A rule of which nothing is known yet. -/
def Rule.draft (r : Rule) : DraftRule :=
  { id := r.id
    name := r.name
    hidden := r.hidden
    first := []
    alternatives := r.alternatives.map fun es => ⟨es.map (⟨·, []⟩), [], false⟩
    nullable := false }

def RuleSet.draft (g : RuleSet) : Draft := ⟨g.start, g.rules.map Rule.draft, false⟩

def ReadyAlternative.source (a : ReadyAlternative) : List Element := a.elements.map (·.element)

namespace DraftRule

def source (r : DraftRule) : Rule :=
  ⟨r.id, r.name, r.hidden, r.alternatives.map ReadyAlternative.source⟩

def facts (r : DraftRule) : Facts := ⟨r.first, r.nullable⟩

def entry (r : DraftRule) : Nat × Facts := (r.id, r.facts)

end DraftRule

def knowledgeOf (rules : List DraftRule) : Knowledge := rules.map DraftRule.entry

/-- What other facts add: whether they name a new kind or are the first to match nothing. -/
def Facts.adds (f new : Facts) : Bool :=
  new.first.any (!f.first.contains ·) || new.nullable && !f.nullable

def Facts.join (f new : Facts) : Facts := ⟨union f.first new.first, f.nullable || new.nullable⟩

def ReadyAlternative.visit (known : Knowledge) (a : ReadyAlternative) : ReadyAlternative :=
  let facts := sequenceFacts known a.source
  { a with first := union a.first facts.first, nullable := facts.nullable }

def ReadyAlternative.facts (a : ReadyAlternative) : Facts := ⟨a.first, a.nullable⟩

/-- Goes through the alternatives of a rule, with what is known of the rule itself; says whether
that grows. -/
def visitAlternatives (known : Facts → Knowledge) (own : Facts) :
    List ReadyAlternative → List ReadyAlternative × Facts × Bool
  | [] => ([], own, false)
  | a :: rest =>
    let a := a.visit (known own)
    let (rest, after, grown) := visitAlternatives known (own.join a.facts) rest
    (a :: rest, after, own.adds a.facts || grown)

def DraftRule.visit (before after : Knowledge) (r : DraftRule) : DraftRule × Bool :=
  let (alternatives, facts, grown) :=
    visitAlternatives (fun own => before ++ (r.id, own) :: after) r.facts r.alternatives
  ({ r with alternatives, first := facts.first, nullable := facts.nullable }, grown)

/-- One round through the rules; says whether anything was added to one. -/
def visitRules (before : Knowledge) : List DraftRule → List DraftRule × Bool
  | [] => ([], false)
  | r :: rest =>
    let (r, grown) := r.visit before (knowledgeOf rest)
    let (rest, more) := visitRules (before ++ [r.entry]) rest
    (r :: rest, grown || more)

def Facts.lack (f : Facts) : Nat :=
  (Kind.all.filter (!f.first.contains ·)).length + (!f.nullable).toNat

/-- How much can still be added to rules. -/
def lack : List DraftRule → Nat
  | [] => 0
  | r :: rest => r.facts.lack + lack rest

theorem Facts.lack_join (f new : Facts) :
    (f.join new).lack ≤ f.lack ∧ (f.adds new = true → (f.join new).lack < f.lack) := by
  have hfirst : Kind.all.filter (!(f.join new).first.contains ·) =
      (Kind.all.filter (!f.first.contains ·)).filter (!new.first.contains ·) := by
    rw [List.filter_filter]
    refine List.filter_congr fun k _ => ?_
    simp [Facts.join, union, mem_all, Bool.and_comm]
  have hle := List.length_filter_le (!new.first.contains ·) (Kind.all.filter (!f.first.contains ·))
  have hnull : (!(f.join new).nullable).toNat ≤ (!f.nullable).toNat := by
    cases hf : f.nullable <;> simp [Facts.join, hf, Bool.toNat_le]
  unfold Facts.lack
  rw [hfirst]
  refine ⟨Nat.add_le_add hle hnull, fun hadds => ?_⟩
  rcases Bool.or_eq_true_iff.1 hadds with h | h
  · obtain ⟨k, hk, hnew⟩ := List.any_eq_true.1 h
    refine Nat.add_lt_add_of_lt_of_le (List.length_filter_lt_length_iff_exists.2 ⟨k, ?_, ?_⟩) hnull
    · exact List.mem_filter.2 ⟨mem_all k, hnew⟩
    · simpa using hk
  · refine Nat.add_lt_add_of_le_of_lt hle ?_
    cases hf : f.nullable <;> simp_all [Facts.join]

theorem visitAlternatives_lack (known : Facts → Knowledge) (own : Facts)
    (as : List ReadyAlternative) :
    (visitAlternatives known own as).2.1.lack ≤ own.lack ∧
      ((visitAlternatives known own as).2.2 = true →
        (visitAlternatives known own as).2.1.lack < own.lack) := by
  induction as generalizing own with
  | nil => exact ⟨Nat.le_refl _, nofun⟩
  | cons a as ih =>
    obtain ⟨hle, hlt⟩ := own.lack_join (a.visit (known own)).facts
    obtain ⟨hrest, hrestLt⟩ := ih (own.join (a.visit (known own)).facts)
    refine ⟨Nat.le_trans hrest hle, fun h => ?_⟩
    rcases Bool.or_eq_true_iff.1 h with h | h
    · exact Nat.lt_of_le_of_lt hrest (hlt h)
    · exact Nat.lt_of_lt_of_le (hrestLt h) hle

/-- A round that adds something leaves less to add. -/
theorem visitRules_lack (before : Knowledge) (rules : List DraftRule) :
    lack (visitRules before rules).1 ≤ lack rules ∧
      ((visitRules before rules).2 = true → lack (visitRules before rules).1 < lack rules) := by
  induction rules generalizing before with
  | nil => exact ⟨Nat.le_refl _, nofun⟩
  | cons r rules ih =>
    obtain ⟨hle, hlt⟩ := visitAlternatives_lack
      (fun own => before ++ (r.id, own) :: knowledgeOf rules) r.facts r.alternatives
    obtain ⟨hrest, hrestLt⟩ := ih (before ++ [(r.visit before (knowledgeOf rules)).1.entry])
    refine ⟨Nat.add_le_add hle hrest, fun h => ?_⟩
    rcases Bool.or_eq_true_iff.1 h with h | h
    · exact Nat.add_lt_add_of_lt_of_le (hlt h) hrest
    · exact Nat.add_lt_add_of_le_of_lt hle (hrestLt h)

/-- Rounds until one adds nothing to a rule. Each of the others leaves less to add. -/
def settle (rules : List DraftRule) : List DraftRule :=
  let round := visitRules [] rules
  if round.2 then settle round.1 else round.1
termination_by lack rules
decreasing_by exact (visitRules_lack [] rules).2 ‹_›

inductive GrammarFault where
  | noStart (id : Nat)
  | noAlternatives (rule : String)
  | undefined (rule : String) (id : Nat)
  | sameStart (rule : String) (i j : Nat) (kinds : List Kind)
  | ambiguous (rule : String) (k : Nat) (kinds : List Kind)
  | emptyAlternatives (rule : String) (n : Nat)
  deriving DecidableEq, Repr

def kindNames (ks : List Kind) : String := "[" ++ " ".intercalate (ks.map Kind.name) ++ "]"

def GrammarFault.message : GrammarFault → String
  | .noStart id => s!"grammar: start production {id} is not defined"
  | .noAlternatives rule => s!"grammar: production {rule} has no alternatives"
  | .undefined rule id => s!"grammar: production {rule} references undefined production {id}"
  | .sameStart rule i j ks =>
    s!"grammar: production {rule}: alternatives {i} and {j} both start with {kindNames ks}"
  | .ambiguous rule k ks =>
    s!"grammar: production {rule}: optional element {k} is ambiguous on {kindNames ks}"
  | .emptyAlternatives rule n => s!"grammar: production {rule} has {n} empty alternatives"

/-- The first fault of a rule on its own: no alternatives, or a reference to nothing. -/
def Rule.shapeFault? (g : RuleSet) (r : Rule) : Option GrammarFault :=
  if r.alternatives.isEmpty then some (.noAlternatives r.name)
  else
    r.alternatives.flatten.findSome? fun e =>
      match e.target with
      | .token _ => none
      | .rule id => if g.rules.any (·.id == id) then none else some (.undefined r.name id)

/-- The first alternative after the `i`-th that starts with one of the same tokens. -/
def startFault? (name : String) (i : Nat) (a : ReadyAlternative) (later : List ReadyAlternative) :
    Option GrammarFault :=
  later.zipIdx.findSome? fun (b, j) =>
    let common := overlap a.first b.first
    if common.isEmpty then none else some (.sameStart name i (i + 1 + j) common)

/-- The first repeated element that could be confused with what follows it. -/
def repeatFault? (known : Knowledge) (name : String) : Nat → List ReadyElement → Option GrammarFault
  | _, [] => none
  | k, e :: rest =>
    let common := overlap e.first (sequenceFacts known (rest.map (·.element))).first
    if e.element.sameBounds || common.isEmpty then repeatFault? known name (k + 1) rest
    else some (.ambiguous name k common)

/-- The first conflict among alternatives counted from `i`. -/
def conflictFrom? (known : Knowledge) (name : String) : Nat → List ReadyAlternative →
    Option GrammarFault
  | _, [] => none
  | i, a :: later =>
    (startFault? name i a later).or
      ((repeatFault? known name 1 a.elements).or (conflictFrom? known name (i + 1) later))

def ReadyRule.conflict? (known : Knowledge) (r : ReadyRule) : Option GrammarFault :=
  (conflictFrom? known r.name 1 r.alternatives).or
    (let empty := (r.alternatives.filter (·.nullable)).length
     if 1 < empty then some (.emptyAlternatives r.name empty) else none)

def ReadyElement.steer (known : Knowledge) (e : ReadyElement) : ReadyElement :=
  { e with first := (e.element.facts known).first }

/-- The rule with the tokens that its elements can start with. -/
def DraftRule.steer (known : Knowledge) (r : DraftRule) : DraftRule :=
  { r with alternatives := r.alternatives.map fun a =>
    { a with elements := a.elements.map (·.steer known) } }

/-- Steers the rules one after the other until one has a conflict. -/
def steerRules (known : Knowledge) : List DraftRule → Option GrammarFault × List DraftRule
  | [] => (none, [])
  | r :: rest =>
    let r := r.steer known
    match r.conflict? known with
    | some fault => (some fault, r :: rest)
    | none =>
      let (fault, rest) := steerRules known rest
      (fault, r :: rest)

namespace Draft

/-- The grammar without what is known of it. -/
def source (d : Draft) : RuleSet := ⟨d.start, d.rules.map DraftRule.source⟩

/-- The first fault of a grammar before anything is learned of it. -/
def shapeFault? (d : Draft) : Option GrammarFault :=
  if !d.rules.any (·.id == d.start) then some (.noStart d.start)
  else d.source.rules.findSome? (Rule.shapeFault? d.source)

def prepare (d : Draft) : Option GrammarFault × Draft :=
  if d.prepared then (none, d)
  else
    match d.shapeFault? with
    | some fault => (some fault, d)
    | none =>
      let rules := settle d.rules
      let (fault, rules) := steerRules (knowledgeOf rules) rules
      (fault, ⟨d.start, rules, fault.isNone⟩)

end Draft

def RuleSet.prepare (g : RuleSet) : Except GrammarFault Ready :=
  match g.draft.prepare with
  | (some fault, _) => .error fault
  | (none, d) => .ok ⟨d.start, d.rules.map (·.toReadyRule)⟩

end Formulary.Grammar
