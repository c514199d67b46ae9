import Formulary.Proofs.Grammar.Learning

/-!
# Derivations

The sequences of kinds that a rule derives: one of its alternatives, each element of which is
repeated as often as its bounds allow. What is learned of a grammar covers its derivations, and a
grammar is predictive if one kind ahead tells which alternative to take and whether to repeat an
element. For the latter it must be known what can follow a rule.
-/

namespace Formulary.Grammar

open Lexical (Kind)

inductive Phrase where
  | rule (id : Nat)
  | elements (es : List Element)
  | copies (e : Element) (n : Nat)

/-- Whether an element may stand so many times in a row. -/
def Element.Counts (e : Element) (n : Nat) : Prop := e.least ≤ n ∧ ∀ m, e.most = some m → n ≤ m

inductive Derives (g : RuleSet) : Phrase → List Kind → Prop
  | rule {r : Rule} {es : List Element} {ks : List Kind} (hr : r ∈ g.rules)
      (hes : es ∈ r.alternatives)
    (h : Derives g (.elements es) ks) : Derives g (.rule r.id) ks
  | nil : Derives g (.elements []) []
  | cons {e : Element} {es : List Element} {n : Nat} {ks ks' : List Kind} (counts : e.Counts n)
    (h : Derives g (.copies e n) ks) (h' : Derives g (.elements es) ks') :
    Derives g (.elements (e :: es)) (ks ++ ks')
  | none {e : Element} : Derives g (.copies e 0) []
  | token {e : Element} {k : Kind} {n : Nat} {ks : List Kind} (he : e.target = .token k)
    (h : Derives g (.copies e n) ks) : Derives g (.copies e (n + 1)) (k :: ks)
  | copy {e : Element} {id n : Nat} {ks ks' : List Kind} (he : e.target = .rule id)
      (h : Derives g (.rule id) ks)
    (h' : Derives g (.copies e n) ks') : Derives g (.copies e (n + 1)) (ks ++ ks')

/-- Facts that allow for kinds: they name the first one, or allow for none. -/
def Facts.Covers (f : Facts) : List Kind → Prop
  | [] => f.nullable = true
  | k :: _ => k ∈ f.first

theorem Facts.Covers.le {a b : Facts} {ks : List Kind} (h : a.Covers ks) (hle : a.Le b) :
    b.Covers ks := by
  cases ks with
  | nil => exact hle.2 h
  | cons k ks => exact hle.1 h

theorem get_of_mem {g : RuleSet} (distinct : (g.rules.map Rule.id).Nodup)
    (f : Rule → Facts) {r : Rule}
    (hr : r ∈ g.rules) : Knowledge.get (g.rules.map fun r => (r.id, f r)) r.id = f r := by
  have hfind : ∀ (l : List Rule), r ∈ l → (l.map Rule.id).Nodup →
      (l.map fun r => (r.id, f r)).find? (fun x => x.1 == r.id) = some (r.id, f r) := by
    intro l
    induction l with
    | nil => exact fun h => nomatch h
    | cons q l ih =>
      intro hmem hdistinct
      obtain ⟨hq, hl⟩ := List.nodup_cons.1 hdistinct
      rw [List.map_cons, List.find?_cons]
      rcases List.mem_cons.1 hmem with rfl | hmem
      · simp
      · have hne : (q.id == r.id) = false := by
          have := fun h : q.id = r.id => hq (h ▸ List.mem_map_of_mem hmem)
          simpa using this
        simp only [hne]
        exact ih hmem hl
  have hreverse := hfind g.rules.reverse (List.mem_reverse.2 hr) (by
    rw [List.map_reverse]
    exact List.pairwise_reverse.2 (distinct.imp Ne.symm))
  rw [Knowledge.get, ← List.map_reverse, hreverse]
  rfl

/-- What is learned of a rule is what its own equation says. -/
theorem get_facts {g : RuleSet} (distinct : (g.rules.map Rule.id).Nodup) {r : Rule}
    (hr : r ∈ g.rules) :
    g.facts.get r.id = r.facts g.facts := by
  have hget := get_of_mem distinct (fun r => r.facts g.facts) hr
  rw [← hget]
  exact congrArg (Knowledge.get · r.id) (learn_facts g).symm

/-- What is learned covers what is derived. -/
def Phrase.Covered (known : Knowledge) (ks : List Kind) : Phrase → Prop
  | .rule id => (known.get id).Covers ks
  | .elements es => (sequenceFacts known es).Covers ks
  | .copies e n => n = 0 ∧ ks = [] ∨ (e.facts known).Covers ks

theorem sequenceFacts_covers {known : Knowledge} {e : Element} {es : List Element}
    {ks ks' : List Kind}
    (h : (e.facts known).Covers ks) (h' : (sequenceFacts known es).Covers ks') :
    (sequenceFacts known (e :: es)).Covers (ks ++ ks') := by
  rw [sequenceFacts]
  cases ks with
  | nil =>
    have hnull : (e.facts known).nullable = true := h
    simp only [hnull, if_true, List.nil_append]
    cases ks' with
    | nil => exact h'
    | cons k ks' => exact mem_union.2 (.inr h')
  | cons k ks =>
    have hfirst : k ∈ (e.facts known).first := h
    simp only
    split
    · exact mem_union.2 (.inl hfirst)
    · exact mem_union.2 (.inl hfirst)

/-- A derivation starts with one of the kinds learned, or what it derives from is known to allow for
nothing. -/
theorem Derives.covered {g : RuleSet} (distinct : (g.rules.map Rule.id).Nodup) {p : Phrase}
    {ks : List Kind}
    (h : Derives g p ks) : p.Covered g.facts ks := by
  induction h with
  | @rule r es ks hr hes _ ih =>
    show (g.facts.get r.id).Covers ks
    rw [get_facts distinct hr]
    cases ks with
    | nil => exact facts_nullable.2 ⟨es, hes, ih⟩
    | cons k ks => exact mem_facts_first.2 ⟨es, hes, ih⟩
  | nil => exact rfl
  | @cons e es n ks ks' counts _ _ ih ih' =>
    refine sequenceFacts_covers ?_ ih'
    rcases ih with ⟨rfl, rfl⟩ | ih
    · have hleast : e.least = 0 := Nat.le_zero.1 counts.1
      show (e.facts g.facts).nullable = true
      unfold Element.facts
      cases e.target <;> simp [hleast]
    · exact ih
  | none => exact .inl ⟨rfl, rfl⟩
  | @token e k n ks he _ _ =>
    refine .inr ?_
    show k ∈ (e.facts g.facts).first
    simp [Element.facts, he]
  | @copy e id n ks ks' he _ _ ih ih' =>
    refine .inr ?_
    have hrule : (g.facts.get id).Covers ks := ih
    cases ks with
    | nil =>
      have hnull : (e.facts g.facts).Covers [] := by
        have hid : (g.facts.get id).nullable = true := hrule
        show (e.facts g.facts).nullable = true
        simp [Element.facts, he, hid]
      rcases ih' with ⟨-, rfl⟩ | ih'
      · exact hnull
      · exact ih'
    | cons k ks =>
      have hfirst : k ∈ (g.facts.get id).first := hrule
      show k ∈ (e.facts g.facts).first
      simpa [Element.facts, he] using hfirst

section Predictive

variable (table : Knowledge) (follow : Nat → List Kind)

/-- The kinds that can come next where a sequence is to be matched and other kinds may follow it. -/
def ahead (after : List Kind) (es : List Element) : List Kind :=
  (sequenceFacts table es).first ++ if (sequenceFacts table es).nullable then after else []

/-- One kind ahead tells whether to repeat each element of a sequence, and the kinds that can follow
a rule are those of a table. -/
def Steered (after : List Kind) : List Element → Prop
  | [] => True
  | e :: rest =>
    e.least ≤ e.most.getD e.least ∧
      (e.isFixed = true ∨ ∀ k ∈ ahead table after rest, k ∉ (e.facts table).first) ∧
      (match e.target with
        | .token k => k ≠ .eof
        | .rule id => (∀ k ∈ ahead table after rest, k ∈ follow id) ∧
          (e.most = some 1 ∨ ∀ k ∈ (e.facts table).first, k ∈ follow id)) ∧
      Steered after rest

instance instDecidableSteered (after : List Kind) : (es : List Element) →
    Decidable (Steered table follow after es)
  | [] => inferInstanceAs (Decidable True)
  | e :: rest =>
    have := instDecidableSteered after rest
    have : Decidable (match e.target with
        | .token k => k ≠ .eof
        | .rule id => (∀ k ∈ ahead table after rest, k ∈ follow id) ∧
          (e.most = some 1 ∨ ∀ k ∈ (e.facts table).first, k ∈ follow id)) := by
      cases e.target <;> infer_instance
    inferInstanceAs (Decidable (_ ∧ _ ∧ _ ∧ _))

end Predictive

/-- A table in which rules start with some kinds and never match nothing. -/
def RuleSet.tableOf (g : RuleSet) (starts : Nat → List Kind) : Knowledge :=
  g.rules.map fun r => (r.id, ⟨starts r.id, false⟩)

structure RuleSet.Predictive (g : RuleSet) (starts follow : Nat → List Kind) : Prop where
  distinct : (g.rules.map Rule.id).Nodup
  defined : ∀ r ∈ g.rules, ∀ es ∈ r.alternatives, ∀ e ∈ es, (match e.target with
    | .token _ => true
    | .rule id => (g.rules.map Rule.id).contains id) = true
  closed : ∀ r ∈ g.rules, ∀ es ∈ r.alternatives,
    (sequenceFacts (g.tableOf starts) es).nullable = false ∧
    ∀ k ∈ (sequenceFacts (g.tableOf starts) es).first, k ∈ starts r.id
  apart : ∀ r ∈ g.rules, r.alternatives.Pairwise fun a b =>
    ∀ k ∈ (sequenceFacts (g.tableOf starts) a).first, k ∉ (sequenceFacts (g.tableOf starts) b).first
  steered : ∀ r ∈ g.rules, ∀ es ∈ r.alternatives, Steered (g.tableOf starts) follow (follow r.id) es

namespace RuleSet.Predictive

variable {g : RuleSet} {starts follow : Nat → List Kind}

theorem exists_rule (h : g.Predictive starts follow) {r : Rule} (hr : r ∈ g.rules)
    {es : List Element}
    (hes : es ∈ r.alternatives) {e : Element} (he : e ∈ es) {id : Nat} (hid : e.target = .rule id) :
    ∃ q ∈ g.rules, q.id = id := by
  have hdefined := h.defined r hr es hes e he
  rw [hid] at hdefined
  exact List.mem_map.1 (List.contains_iff_mem.1 hdefined)

/-- What is learned of a predictive grammar is within its table. -/
theorem facts_le_table (h : g.Predictive starts follow) : g.facts.Le (g.tableOf starts) := by
  refine facts_le g fun r hr => ⟨fun k hk => ?_, fun hn => ?_⟩
  · obtain ⟨es, hes, hk⟩ := mem_facts_first.1 hk
    exact (h.closed r hr es hes).2 k hk
  · obtain ⟨es, hes, hn⟩ := facts_nullable.1 hn
    exact absurd ((h.closed r hr es hes).1.symm.trans hn) nofun

/-- No rule of a predictive grammar derives nothing. -/
theorem ne_nil (h : g.Predictive starts follow) {id : Nat} {ks : List Kind}
    (hd : Derives g (.rule id) ks) :
    ks ≠ [] := by
  rintro rfl
  cases hd with
  | @rule r es _ hr hes hd =>
    have hcovers : (sequenceFacts g.facts es).Covers [] := hd.covered h.distinct
    have hnull : (sequenceFacts (g.tableOf starts) es).nullable = true :=
      hcovers.le (sequenceFacts_le h.facts_le_table es)
    exact absurd ((h.closed r hr es hes).1.symm.trans hnull) nofun

/-- The kind that comes where a sequence was derived is one of those ahead. -/
theorem head_mem_ahead (h : g.Predictive starts follow) {after : List Kind} {es : List Element}
    {ks : List Kind} {next : Kind} (hd : Derives g (.elements es) ks) (hnext : next ∈ after) :
    ks.head?.getD next ∈ ahead (g.tableOf starts) after es := by
  have hcovers : (sequenceFacts g.facts es).Covers ks := hd.covered h.distinct
  have htable := hcovers.le (sequenceFacts_le h.facts_le_table es)
  unfold ahead
  cases ks with
  | nil =>
    have hnull : (sequenceFacts (g.tableOf starts) es).nullable = true := htable
    rw [hnull]
    exact List.mem_append_right _ hnext
  | cons k ks => exact List.mem_append_left _ htable

end RuleSet.Predictive

end Formulary.Grammar
