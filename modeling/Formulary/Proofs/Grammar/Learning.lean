import Mathlib.Algebra.Ring.Nat
import Mathlib.Data.List.Forall2
import Formulary.Grammar.Rule

/-!
# What is learned of a grammar

Rounds of learning only add to what is known, and there is only so much to know of a grammar. So the
rounds that `RuleSet.facts` takes are enough: its outcome solves the equations of the rules. It is
also below every other solution.
-/

namespace Formulary.Grammar

open Lexical (Kind)

def Facts.Le (a b : Facts) : Prop := a.first ⊆ b.first ∧ (a.nullable = true → b.nullable = true)

theorem Facts.le_refl (a : Facts) : a.Le a := ⟨fun _ h => h, id⟩

theorem Facts.Le.trans {a b c : Facts} (h : a.Le b) (h' : b.Le c) : a.Le c :=
  ⟨fun _ hk => h'.1 (h.1 hk), fun hn => h'.2 (h.2 hn)⟩

def Knowledge.Le (a b : Knowledge) : Prop := List.Forall₂ (fun x y => x.1 = y.1 ∧ x.2.Le y.2) a b

section Monotone

variable {a b : Knowledge}

theorem Knowledge.Le.get (h : a.Le b) (id : Nat) : (a.get id).Le (b.get id) := by
  have hfind : ∀ {x y : List (Nat × Facts)}, Knowledge.Le x y →
      (((x.find? (·.1 == id)).map (·.2)).getD ⟨[], false⟩ : Facts).Le
        (((y.find? (·.1 == id)).map (·.2)).getD ⟨[], false⟩) := by
    intro x y hxy
    induction hxy with
    | nil => exact Facts.le_refl _
    | @cons u v us vs huv _ ih =>
      rw [List.find?_cons, List.find?_cons, huv.1]
      cases v.1 == id with
      | true => exact huv.2
      | false => exact ih
  exact hfind (List.rel_reverse h)

theorem Element.facts_le (h : a.Le b) (e : Element) : (e.facts a).Le (e.facts b) := by
  unfold Element.facts
  cases e.target with
  | token k => exact Facts.le_refl _
  | rule id =>
    obtain ⟨hfirst, hnull⟩ := h.get id
    refine ⟨hfirst, fun hn => ?_⟩
    simp only [Bool.or_eq_true] at hn ⊢
    exact hn.imp_right hnull

theorem sequenceFacts_le (h : a.Le b) (es : List Element) :
    (sequenceFacts a es).Le (sequenceFacts b es) := by
  induction es with
  | nil => exact Facts.le_refl _
  | cons e es ih =>
    obtain ⟨hfirst, hnull⟩ := e.facts_le h
    rw [sequenceFacts, sequenceFacts]
    by_cases hn : (e.facts a).nullable = true
    · simp only [hn, hnull hn, if_true]
      refine ⟨fun k hk => ?_, ih.2⟩
      exact mem_union.2 ((mem_union.1 hk).imp (@hfirst k) (@ih.1 k))
    · rw [if_neg hn]
      refine ⟨fun k hk => ?_, nofun⟩
      have hk : k ∈ (e.facts b).first := hfirst (by simpa [mem_union] using hk)
      split
      · exact mem_union.2 (.inl hk)
      · exact mem_union.2 (.inl hk)

/-- A kind that starts a rule starts one of its alternatives. -/
theorem mem_facts_first {known : Knowledge} {r : Rule} {k : Kind} :
    k ∈ (r.facts known).first ↔ ∃ es ∈ r.alternatives, k ∈ (sequenceFacts known es).first := by
  have hfold : ∀ (l : List Facts) (set : List Kind),
      k ∈ l.foldl (fun set f => union set f.first) set ↔ k ∈ set ∨ ∃ f ∈ l, k ∈ f.first := by
    intro l
    induction l with
    | nil => simp
    | cons f l ih =>
      intro set
      rw [List.foldl_cons, ih, mem_union, or_assoc]
      simp
  simp [Rule.facts, hfold]

theorem facts_nullable {known : Knowledge} {r : Rule} :
    (r.facts known).nullable = true ↔ ∃ es ∈ r.alternatives,
      (sequenceFacts known es).nullable = true := by
  simp [Rule.facts]

theorem Rule.facts_le (h : a.Le b) (r : Rule) : (r.facts a).Le (r.facts b) := by
  refine ⟨fun k hk => ?_, fun hn => ?_⟩
  · obtain ⟨es, hes, hk⟩ := mem_facts_first.1 hk
    exact mem_facts_first.2 ⟨es, hes, (sequenceFacts_le h es).1 hk⟩
  · obtain ⟨es, hes, hn⟩ := facts_nullable.1 hn
    exact facts_nullable.2 ⟨es, hes, (sequenceFacts_le h es).2 hn⟩

theorem learn_le (g : RuleSet) (h : a.Le b) : (g.learn a).Le (g.learn b) := by
  unfold RuleSet.learn Knowledge.Le
  rw [List.forall₂_map_left_iff, List.forall₂_map_right_iff]
  exact List.forall₂_same.2 fun r _ => ⟨rfl, r.facts_le h⟩

end Monotone

/-- The facts of one entry have their kinds in the order of all kinds. -/
def Facts.Listed (f : Facts) : Prop := ∃ p : Kind → Bool, f.first = Kind.all.filter p

def Facts.amount (f : Facts) : Nat := f.first.length + f.nullable.toNat

def Knowledge.amount (known : Knowledge) : Nat := (known.map fun x => x.2.amount).sum

theorem Facts.Listed.amount_le {f : Facts} (h : f.Listed) : f.amount ≤ Kind.all.length + 1 := by
  obtain ⟨p, hp⟩ := h
  have hlength : f.first.length ≤ Kind.all.length := hp ▸ List.length_filter_le p _
  have hbit := f.nullable.toNat_le
  unfold Facts.amount
  omega

/-- Listed facts that say more have a larger amount. -/
theorem Facts.Le.amount_le {a b : Facts} (h : a.Le b) (ha : a.Listed) (hb : b.Listed) :
    a.amount ≤ b.amount ∧ (a.amount = b.amount → a = b) := by
  obtain ⟨p, hp⟩ := ha
  obtain ⟨q, hq⟩ := hb
  have hsub : a.first.Sublist b.first := by
    rw [hp, hq]
    refine List.monotone_filter_right _ fun k hk => ?_
    have hmem : k ∈ b.first := h.1 (hp ▸ List.mem_filter.2 ⟨mem_all k, hk⟩)
    rw [hq] at hmem
    exact (List.mem_filter.1 hmem).2
  have hlength := hsub.length_le
  have hbit : a.nullable.toNat ≤ b.nullable.toNat := by
    cases hn : a.nullable with
    | false => exact Nat.zero_le _
    | true => exact Nat.le_of_eq (by rw [h.2 hn])
  refine ⟨Nat.add_le_add hlength hbit, fun heq => ?_⟩
  unfold Facts.amount at heq
  have hfirst : a.first = b.first := hsub.eq_of_length (by omega)
  have hnull : a.nullable = b.nullable := by
    have hsame : a.nullable.toNat = b.nullable.toNat := by omega
    cases ha : a.nullable <;> cases hb : b.nullable <;> simp [ha, hb] at hsame ⊢
  cases a
  cases b
  simp_all

/-- Knowledge whose entries are listed. -/
def Knowledge.Listed (known : Knowledge) : Prop := ∀ x ∈ known, x.2.Listed

theorem Knowledge.Le.amount_le {a b : Knowledge} (h : a.Le b) (ha : a.Listed) (hb : b.Listed) :
    a.amount ≤ b.amount ∧ (a.amount = b.amount → a = b) := by
  induction h with
  | nil => exact ⟨Nat.le_refl _, fun _ => rfl⟩
  | @cons x y xs ys hxy _ ih =>
    obtain ⟨hle, heq⟩ := hxy.2.amount_le (ha x List.mem_cons_self) (hb y List.mem_cons_self)
    obtain ⟨hrest, hrestEq⟩ := ih (fun z hz => ha z (List.mem_cons_of_mem _ hz))
      fun z hz => hb z (List.mem_cons_of_mem _ hz)
    unfold Knowledge.amount at *
    simp only [List.map_cons, List.sum_cons]
    refine ⟨Nat.add_le_add hle hrest, fun hsum => ?_⟩
    rw [hrestEq (by omega), Prod.ext hxy.1 (heq (by omega))]

theorem Knowledge.Listed.amount_le {known : Knowledge} (h : known.Listed) :
    known.amount ≤ known.length * (Kind.all.length + 1) := by
  unfold Knowledge.amount
  induction known with
  | nil => exact Nat.zero_le _
  | cons x known ih =>
    have hx := (h x List.mem_cons_self).amount_le
    have hrest := ih fun y hy => h y (List.mem_cons_of_mem _ hy)
    simp only [List.map_cons, List.sum_cons, List.length_cons, Nat.add_mul, Nat.one_mul] at hrest ⊢
    omega

theorem Rule.facts_listed (known : Knowledge) (r : Rule) : (r.facts known).Listed := by
  have hfold : ∀ (l : List Facts) (set : List Kind), (∃ p, set = Kind.all.filter p) →
      ∃ p, l.foldl (fun set f => union set f.first) set = Kind.all.filter p := by
    intro l
    induction l with
    | nil => exact fun set h => h
    | cons f l ih => exact fun set _ => ih _ ⟨_, rfl⟩
  exact hfold _ _ ⟨fun _ => false, by simp⟩

theorem learn_listed (g : RuleSet) (known : Knowledge) : (g.learn known).Listed := by
  intro x hx
  obtain ⟨r, -, rfl⟩ := List.mem_map.1 hx
  exact r.facts_listed known

/-- Enough rounds of learning come to a solution: each round before that says more of some rule. -/
theorem learn_learnUpTo (g : RuleSet) {n : Nat} {known : Knowledge} (hup : known.Le (g.learn known))
    (listed : known.Listed) (enough : g.rules.length * (Kind.all.length + 1) < known.amount + n) :
    g.learn (g.learnUpTo n known) = g.learnUpTo n known := by
  induction n generalizing known with
  | zero =>
    have hlength : known.length = g.rules.length := by
      rw [hup.length_eq]
      simp [RuleSet.learn]
    have hamount := listed.amount_le
    rw [hlength] at hamount
    omega
  | succ n ih =>
    rw [RuleSet.learnUpTo]
    by_cases heq : (g.learn known == known) = true
    · simp only [heq, if_true]
      exact beq_iff_eq.1 heq
    · simp only [heq]
      obtain ⟨hle, hsame⟩ := hup.amount_le listed (learn_listed g known)
      have hne : known.amount ≠ (g.learn known).amount := fun h => heq (beq_iff_eq.2 (hsame h).symm)
      exact ih (learn_le g hup) (learn_listed g known) (by omega)

/-- Knowledge of nothing. -/
def RuleSet.ignorance (g : RuleSet) : Knowledge := g.rules.map fun r => (r.id, ⟨[], false⟩)

theorem ignorance_le (g : RuleSet) (f : Rule → Facts) :
    g.ignorance.Le (g.rules.map fun r => (r.id, f r)) := by
  unfold RuleSet.ignorance Knowledge.Le
  rw [List.forall₂_map_left_iff, List.forall₂_map_right_iff]
  exact List.forall₂_same.2 fun r _ => ⟨rfl, List.nil_subset _, nofun⟩

/-- What is learned of a grammar solves the equations of its rules. -/
theorem learn_facts (g : RuleSet) : g.learn g.facts = g.facts := by
  refine learn_learnUpTo g (ignorance_le g _) ?_ ?_
  · intro x hx
    obtain ⟨r, -, rfl⟩ := List.mem_map.1 hx
    exact ⟨fun _ => false, by simp⟩
  · omega

theorem Knowledge.le_refl (a : Knowledge) : a.Le a := List.forall₂_same.2 fun x _ =>
    ⟨rfl, x.2.le_refl⟩

theorem Knowledge.Le.trans {a b c : Knowledge} (h : a.Le b) (h' : b.Le c) : a.Le c := by
  induction h generalizing c with
  | nil => exact h'
  | cons hxy _ ih =>
    cases h' with
    | cons hyz hrest => exact .cons ⟨hxy.1.trans hyz.1, hxy.2.trans hyz.2⟩ (ih hrest)

/-- What is learned of a grammar says no more than knowledge of its rules that a round does not add
to. -/
theorem facts_le_of_learn_le (g : RuleSet) {known : Knowledge} (hstart : g.ignorance.Le known)
    (hclosed : (g.learn known).Le known) : g.facts.Le known := by
  have hrounds : ∀ {n : Nat} {a : Knowledge}, a.Le known → (g.learnUpTo n a).Le known := by
    intro n
    induction n with
    | zero => exact fun h => h
    | succ n ih =>
      intro a h
      rw [RuleSet.learnUpTo]
      split
      · exact h
      · exact ih ((learn_le g h).trans hclosed)
  exact hrounds hstart

/-- What is learned of a grammar says no more than any table that the rules do not add to. -/
theorem facts_le (g : RuleSet) {f : Rule → Facts} (closed : ∀ r ∈ g.rules,
    (r.facts (g.rules.map fun r => (r.id, f r))).Le (f r)) :
      g.facts.Le (g.rules.map fun r => (r.id, f r)) := by
  refine facts_le_of_learn_le g (ignorance_le g f) ?_
  unfold Knowledge.Le
  rw [RuleSet.learn, List.forall₂_map_left_iff, List.forall₂_map_right_iff]
  exact List.forall₂_same.2 fun r hr => ⟨rfl, closed r hr⟩

/-- What is learned of a grammar says as much as a table in which every rule follows from those of
lower rank. -/
theorem le_facts (g : RuleSet) (rank : Rule → Nat) {f : Rule → Facts} (grounded : ∀ r ∈ g.rules,
    (f r).Le (r.facts (g.rules.map fun q => (q.id, if rank q < rank r then f q
      else ⟨[], false⟩)))) :
    Knowledge.Le (g.rules.map fun r => (r.id, f r)) g.facts := by
  have hbelow : ∀ n, Knowledge.Le (g.rules.map fun q =>
      (q.id, if rank q < n then f q else ⟨[], false⟩)) g.facts := by
    intro n
    induction n using Nat.strongRecOn with
    | ind n ih =>
      unfold Knowledge.Le
      rw [← learn_facts, RuleSet.learn, List.forall₂_map_left_iff, List.forall₂_map_right_iff]
      refine List.forall₂_same.2 fun r hr => ⟨rfl, ?_⟩
      dsimp only
      split
      · rename_i hlt
        exact (grounded r hr).trans (r.facts_le (ih _ hlt))
      · exact ⟨List.nil_subset _, nofun⟩
  unfold Knowledge.Le
  rw [← learn_facts, RuleSet.learn, List.forall₂_map_left_iff, List.forall₂_map_right_iff]
  exact List.forall₂_same.2 fun r hr => ⟨rfl, (grounded r hr).trans (r.facts_le (hbelow _))⟩

/-- What is learned of a grammar is a table that the rules do not add to and in which each follows
from others. -/
theorem facts_eq (g : RuleSet) (rank : Rule → Nat) {f : Rule → Facts} (listed : ∀ r, (f r).Listed)
    (closed : ∀ r ∈ g.rules, (r.facts (g.rules.map fun r => (r.id, f r))).Le (f r))
    (grounded : ∀ r ∈ g.rules,
      (f r).Le (r.facts (g.rules.map fun q =>
        (q.id, if rank q < rank r then f q else ⟨[], false⟩)))) :
    g.facts = g.rules.map fun r => (r.id, f r) := by
  have hlisted : Knowledge.Listed (g.rules.map fun r => (r.id, f r)) := by
    intro x hx
    obtain ⟨r, -, rfl⟩ := List.mem_map.1 hx
    exact listed r
  have hfacts : g.facts.Listed := learn_facts g ▸ learn_listed g g.facts
  obtain ⟨hle, heq⟩ := (facts_le g closed).amount_le hfacts hlisted
  exact heq (Nat.le_antisymm hle ((le_facts g rank grounded).amount_le hlisted hfacts).1)

end Formulary.Grammar
