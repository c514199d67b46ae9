import Formulary.Proofs.Grammar.Derivation

/-!
# Exact lookahead

Which rules can match nothing, and which tokens a rule can start with, as the least relations that
the alternatives of the rules ask for. What is learned of a grammar by rounds, `RuleSet.facts`, is
exactly these relations: it is closed under the rules, and no table that is closed says less.
-/

namespace Formulary.Grammar

open Lexical (Kind)

/-- An element that matches nothing, if these rules do: it may be missing, or stands for one of
them. -/
def Element.Skips (vanish : Nat → Prop) (e : Element) : Prop :=
  e.least = 0 ∨ ∃ id, e.target = .rule id ∧ vanish id

/-- An element that starts with a token, if these rules start with these tokens. -/
def Element.Starts (start : Nat → Kind → Prop) (e : Element) (k : Kind) : Prop :=
  e.target = .token k ∨ ∃ id, e.target = .rule id ∧ start id k

/-- A sequence whose elements can all match nothing. -/
def SkipsAll (vanish : Nat → Prop) (es : List Element) : Prop := ∀ e ∈ es, e.Skips vanish

/-- A sequence of which an element starts with a token and those before it can match nothing. -/
def StartsIn (vanish : Nat → Prop) (start : Nat → Kind → Prop) (es : List Element)
    (k : Kind) : Prop :=
  ∃ (before : List Element) (e : Element) (after : List Element),
    es = before ++ e :: after ∧ SkipsAll vanish before ∧ e.Starts start k

section Monotone

variable {vanish vanish' : Nat → Prop} {start start' : Nat → Kind → Prop}
  {es : List Element} {k : Kind}

theorem Element.Skips.mono (hv : ∀ id, vanish id → vanish' id) {e : Element} (h : e.Skips vanish) :
    e.Skips vanish' :=
  h.imp_right fun ⟨id, he, h⟩ => ⟨id, he, hv id h⟩

theorem SkipsAll.mono (hv : ∀ id, vanish id → vanish' id) (h : SkipsAll vanish es) :
    SkipsAll vanish' es :=
  fun e he => (h e he).mono hv

theorem StartsIn.mono (hv : ∀ id, vanish id → vanish' id) (hs : ∀ id k, start id k → start' id k)
    (h : StartsIn vanish start es k) : StartsIn vanish' start' es k := by
  obtain ⟨before, e, after, heq, hbefore, he⟩ := h
  exact ⟨before, e, after, heq, hbefore.mono hv, he.imp_right fun ⟨id, he, h⟩ =>
    ⟨id, he, hs id k h⟩⟩

end Monotone

inductive Nullable (g : RuleSet) : Nat → Prop
  | of_alternative {r : Rule} {es : List Element} (hr : r ∈ g.rules) (hes : es ∈ r.alternatives)
    (tokens : ∀ e ∈ es, ∀ k, e.target = .token k → e.least = 0)
    (rules : ∀ e ∈ es, ∀ id, e.target = .rule id → e.least ≠ 0 → Nullable g id) : Nullable g r.id

inductive First (g : RuleSet) : Nat → Kind → Prop
  | token {r : Rule} {before after : List Element} {e : Element} {k : Kind} (hr : r ∈ g.rules)
    (hes : before ++ e :: after ∈ r.alternatives) (hbefore : SkipsAll (Nullable g) before)
    (he : e.target = .token k) :
    First g r.id k
  | rule {r : Rule} {before after : List Element} {e : Element} {id : Nat} {k : Kind}
      (hr : r ∈ g.rules)
    (hes : before ++ e :: after ∈ r.alternatives) (hbefore : SkipsAll (Nullable g) before)
    (he : e.target = .rule id)
    (h : First g id k) : First g r.id k

section Equations

variable {g : RuleSet} {id : Nat} {k : Kind}

theorem nullable_iff :
    Nullable g id ↔ ∃ r ∈ g.rules, r.id = id ∧ ∃ es ∈ r.alternatives, SkipsAll (Nullable g) es := by
  constructor
  · rintro ⟨hr, hes, tokens, rules⟩
    refine ⟨_, hr, rfl, _, hes, fun e he => ?_⟩
    cases ht : e.target with
    | token k => exact .inl (tokens e he k ht)
    | rule id => exact or_iff_not_imp_left.2 fun hleast => ⟨id, ht, rules e he id ht hleast⟩
  · rintro ⟨r, hr, rfl, es, hes, hskips⟩
    refine .of_alternative hr hes (fun e he k hk => ?_) fun e he id hid hleast => ?_
    · rcases hskips e he with h | ⟨id, hid, -⟩
      · exact h
      · rw [hk] at hid
        cases hid
    · rcases hskips e he with h | ⟨id', hid', h⟩
      · exact absurd h hleast
      · rw [hid] at hid'
        cases hid'
        exact h

theorem first_iff :
    First g id k ↔ ∃ r ∈ g.rules, r.id = id ∧ ∃ es ∈ r.alternatives,
      StartsIn (Nullable g) (First g) es k := by
  constructor
  · rintro (⟨hr, hes, hbefore, he⟩ | ⟨hr, hes, hbefore, he, h⟩)
    · exact ⟨_, hr, rfl, _, hes, _, _, _, rfl, hbefore, .inl he⟩
    · exact ⟨_, hr, rfl, _, hes, _, _, _, rfl, hbefore, .inr ⟨_, he, h⟩⟩
  · rintro ⟨r, hr, rfl, -, hes, before, e, after, rfl, hbefore, he | ⟨id, he, h⟩⟩
    · exact .token hr hes hbefore he
    · exact .rule hr hes hbefore he h

end Equations

section Facts

variable {known : Knowledge} {e : Element} {es : List Element} {k : Kind}

/-- The rules that are known to match nothing. -/
def Knowledge.Vanishes (known : Knowledge) (id : Nat) : Prop := (known.get id).nullable = true

def Knowledge.StartsWith (known : Knowledge) (id : Nat) (k : Kind) : Prop :=
  k ∈ (known.get id).first

theorem element_nullable : (e.facts known).nullable = true ↔ e.Skips known.Vanishes := by
  unfold Element.facts Element.Skips Knowledge.Vanishes
  cases e.target <;> simp

theorem mem_element_first : k ∈ (e.facts known).first ↔ e.Starts known.StartsWith k := by
  unfold Element.facts Element.Starts Knowledge.StartsWith
  cases e.target <;> simp [eq_comm]

theorem sequence_nullable : (sequenceFacts known es).nullable = true ↔
    SkipsAll known.Vanishes es := by
  induction es with
  | nil => exact ⟨fun _ => List.forall_mem_nil _, fun _ => rfl⟩
  | cons e es ih =>
    rw [SkipsAll, List.forall_mem_cons, ← element_nullable, sequenceFacts]
    split
    · rename_i hn
      exact ⟨fun h => ⟨hn, ih.1 h⟩, fun h => ih.2 h.2⟩
    · rename_i hn
      exact ⟨fun h => absurd h Bool.false_ne_true, fun h => absurd h.1 hn⟩

theorem startsIn_cons {vanish : Nat → Prop} {start : Nat → Kind → Prop} :
    StartsIn vanish start (e :: es) k ↔ e.Starts start k ∨ e.Skips vanish ∧
      StartsIn vanish start es k := by
  constructor
  · rintro ⟨before, d, after, heq, hbefore, hd⟩
    cases before with
    | nil =>
      cases heq
      exact .inl hd
    | cons c before =>
      cases heq
      obtain ⟨hc, hbefore⟩ := List.forall_mem_cons.1 hbefore
      exact .inr ⟨hc, before, d, after, rfl, hbefore, hd⟩
  · rintro (h | ⟨he, before, d, after, rfl, hbefore, hd⟩)
    · exact ⟨[], e, es, rfl, nofun, h⟩
    · exact ⟨e :: before, d, after, rfl, List.forall_mem_cons.2 ⟨he, hbefore⟩, hd⟩

theorem mem_sequence_first :
    k ∈ (sequenceFacts known es).first ↔ StartsIn known.Vanishes known.StartsWith es k := by
  induction es with
  | nil => exact ⟨nofun, fun ⟨before, _, _, h, _⟩ => by cases before <;> cases h⟩
  | cons e es ih =>
    rw [startsIn_cons, ← mem_element_first, ← element_nullable, ← ih, sequenceFacts]
    split
    · rename_i hn
      simp [mem_union, hn]
    · rename_i hn
      simp [mem_union, hn]

end Facts

section Exact

variable {g : RuleSet} (distinct : (g.rules.map Rule.id).Nodup)
include distinct

/-- What is looked up is the last entry with the number, or nothing where there is none. -/
theorem get_table (f : Rule → Facts) (id : Nat) :
    (∃ r ∈ g.rules, r.id = id ∧ Knowledge.get (g.rules.map fun r => (r.id, f r)) id = f r) ∨
      Knowledge.get (g.rules.map fun r => (r.id, f r)) id = ⟨[], false⟩ := by
  by_cases h : ∃ r ∈ g.rules, r.id = id
  · obtain ⟨r, hr, rfl⟩ := h
    exact .inl ⟨r, hr, rfl, get_of_mem distinct f hr⟩
  · refine .inr ?_
    have hnone : (g.rules.map fun r => (r.id, f r)).reverse.find? (·.1 == id) = none := by
      rw [List.find?_eq_none]
      intro x hx heq
      obtain ⟨r, hr, rfl⟩ := List.mem_map.1 (List.mem_reverse.1 hx)
      exact h ⟨r, hr, beq_iff_eq.1 heq⟩
    rw [Knowledge.get, hnone]
    rfl

open Classical in
/-- Nothing is learned but what the relations say. -/
theorem facts_sound (id : Nat) :
    (g.facts.Vanishes id → Nullable g id) ∧ ∀ k, g.facts.StartsWith id k → First g id k := by
  let f : Rule → Facts := fun r => ⟨Kind.all.filter fun k =>
    First g r.id k, decide (Nullable g r.id)⟩
  let table : Knowledge := g.rules.map fun r => (r.id, f r)
  have hvanish : ∀ id, table.Vanishes id → Nullable g id := by
    intro id h
    unfold Knowledge.Vanishes at h
    rcases get_table distinct f id with ⟨r, -, rfl, hget⟩ | hget
    · rw [hget] at h
      exact of_decide_eq_true h
    · rw [hget] at h
      cases h
  have hstart : ∀ id k, table.StartsWith id k → First g id k := by
    intro id k h
    unfold Knowledge.StartsWith at h
    rcases get_table distinct f id with ⟨r, -, rfl, hget⟩ | hget
    · rw [hget] at h
      exact of_decide_eq_true (List.mem_filter.1 h).2
    · rw [hget] at h
      cases h
  have hle : g.facts.Le table := by
    refine facts_le g fun r hr => ⟨fun k hk => ?_, fun hn => ?_⟩
    · obtain ⟨es, hes, hk⟩ := mem_facts_first.1 hk
      have hfirst := first_iff.2 ⟨r, hr, rfl, es, hes,
        (mem_sequence_first.1 hk).mono hvanish hstart⟩
      exact List.mem_filter.2 ⟨mem_all k, decide_eq_true hfirst⟩
    · obtain ⟨es, hes, hn⟩ := facts_nullable.1 hn
      exact decide_eq_true (nullable_iff.2 ⟨r, hr, rfl, es, hes,
        (sequence_nullable.1 hn).mono hvanish⟩)
  exact ⟨fun h => hvanish id ((hle.get id).2 h), fun k h => hstart id k ((hle.get id).1 h)⟩

/-- All that the relations say is learned. -/
theorem nullable_learned {id : Nat} (h : Nullable g id) : g.facts.Vanishes id := by
  induction h with
  | @of_alternative r es hr hes tokens rules ih =>
    unfold Knowledge.Vanishes
    rw [get_facts distinct hr]
    refine facts_nullable.2 ⟨es, hes, sequence_nullable.2 fun e he => ?_⟩
    cases ht : e.target with
    | token k => exact .inl (tokens e he k ht)
    | rule id => exact or_iff_not_imp_left.2 fun hleast => ⟨id, ht, ih e he id ht hleast⟩

theorem first_learned {id : Nat} {k : Kind} (h : First g id k) : g.facts.StartsWith id k := by
  have hskips : ∀ {es}, SkipsAll (Nullable g) es → SkipsAll g.facts.Vanishes es :=
    fun h => h.mono fun _ => nullable_learned distinct
  induction h with
  | token hr hes hbefore he =>
    unfold Knowledge.StartsWith
    rw [get_facts distinct hr]
    exact mem_facts_first.2 ⟨_, hes, mem_sequence_first.2 ⟨_, _, _, rfl, hskips hbefore, .inl he⟩⟩
  | rule hr hes hbefore he _ ih =>
    unfold Knowledge.StartsWith
    rw [get_facts distinct hr]
    exact mem_facts_first.2 ⟨_, hes, mem_sequence_first.2
      ⟨_, _, _, rfl, hskips hbefore, .inr ⟨_, he, ih⟩⟩⟩

/-- What is learned to match nothing is what can. -/
theorem vanishes_facts : g.facts.Vanishes = Nullable g :=
  funext fun id => propext ⟨(facts_sound distinct id).1, nullable_learned distinct⟩

/-- What is learned to start with a token is what can. -/
theorem startsWith_facts : g.facts.StartsWith = First g :=
  funext fun id => funext fun k => propext ⟨(facts_sound distinct id).2 k, first_learned distinct⟩

end Exact

end Formulary.Grammar
