import Formulary.Proofs.Grammar.Lookahead
import Formulary.Grammar.Prepare

/-!
# Preparation in place

The rounds of a preparation add to the rules one alternative after the other, each with what is
known at that moment. None of them adds more than is learned of the grammar, and a round that adds
nothing to a rule has seen one and the same knowledge throughout: the rules do not add to it, so it
is all that is learned. After that nothing changes any more, in this preparation or in another one.
-/

namespace Formulary.Grammar

open Lexical (Kind)

theorem visitRules_cons (before : Knowledge) (q : DraftRule) (qs : List DraftRule) :
    visitRules before (q :: qs) =
      ((q.visit before (knowledgeOf qs)).1 ::
          (visitRules (before ++ [(q.visit before (knowledgeOf qs)).1.entry]) qs).1,
        (q.visit before (knowledgeOf qs)).2 ||
          (visitRules (before ++ [(q.visit before (knowledgeOf qs)).1.entry]) qs).2) := rfl

inductive Rounds : Nat → List DraftRule → List DraftRule → Prop
  | last {rules : List DraftRule} (h : (visitRules [] rules).2 = false) :
      Rounds 1 rules (visitRules [] rules).1
  | more {n : Nat} {rules rules' : List DraftRule} (h : (visitRules [] rules).2 = true)
    (h' : Rounds n (visitRules [] rules).1 rules') : Rounds (n + 1) rules rules'

/-- The rounds come to an end, as each but the last leaves less to add. -/
theorem settle_rounds (rules : List DraftRule) : ∃ n ≤ lack rules + 1,
    Rounds n rules (settle rules) := by
  induction hlack : lack rules using Nat.strong_induction_on generalizing rules with
  | _ amount ih =>
    rw [settle]
    cases h : (visitRules [] rules).2 with
    | false => exact ⟨1, Nat.le_add_left 1 _, by simpa [h] using Rounds.last h⟩
    | true =>
      have hlt := (visitRules_lack [] rules).2 h
      obtain ⟨n, hn, hrounds⟩ := ih _ (hlack ▸ hlt) _ rfl
      exact ⟨n + 1, by omega, by simpa [h] using Rounds.more h hrounds⟩

/-- Of a grammar of which nothing is known everything is to be added. -/
theorem lack_draft (g : RuleSet) : lack g.draft.rules = g.rules.length * (Kind.all.length + 1) := by
  have hrule : ∀ r : Rule, r.draft.facts.lack = Kind.all.length + 1 := fun r => by
    simp [Facts.lack, DraftRule.facts, Rule.draft]
  have hrules : ∀ rs : List Rule, lack (rs.map Rule.draft) = rs.length * (Kind.all.length + 1) := by
    intro rs
    induction rs with
    | nil => exact (Nat.zero_mul _).symm
    | cons r rs ih =>
      rw [List.map_cons, lack, hrule, ih, List.length_cons, Nat.succ_mul, Nat.add_comm]
  exact hrules g.rules

section Join

variable {f new bound : Facts}

theorem Facts.join_le (h : f.Le bound) (h' : new.Le bound) : (f.join new).Le bound :=
  ⟨fun _ hk => (mem_union.1 hk).elim (@h.1 _) (@h'.1 _), fun hn =>
    (Bool.or_eq_true_iff.1 hn).elim h.2 h'.2⟩

theorem union_listed (a b : List Kind) (n : Bool) : Facts.Listed ⟨union a b, n⟩ :=
  ⟨fun k => a.contains k || b.contains k, rfl⟩

theorem Facts.Le.antisymm (h : f.Le new) (h' : new.Le f) (hf : f.Listed)
    (hnew : new.Listed) : f = new :=
  (h.amount_le hf hnew).2 (Nat.le_antisymm (h.amount_le hf hnew).1 (h'.amount_le hnew hf).1)

/-- Facts add nothing to those that say as much. -/
theorem Facts.adds_eq_false_iff : f.adds new = false ↔ new.Le f := by
  simp only [Facts.adds, Facts.Le, Bool.or_eq_false_iff, List.any_eq_false, List.subset_def]
  simp

theorem Facts.join_eq_of_le (listed : f.Listed) (h : new.Le f) : f.join new = f :=
  (join_le f.le_refl h).antisymm ⟨fun _ hk => mem_union.2 (.inl hk), fun hn =>
    Bool.or_eq_true_iff.2 (.inl hn)⟩
    (union_listed _ _ _) listed

theorem sequenceFacts_listed (known : Knowledge) (es : List Element) :
    (sequenceFacts known es).Listed := by
  cases es with
  | nil => exact ⟨fun _ => false, by simp [sequenceFacts]⟩
  | cons e es =>
    rw [sequenceFacts]
    split
    · exact union_listed _ _ _
    · exact union_listed _ _ _

/-- A rule can do what its alternatives can. -/
theorem sequenceFacts_le_facts (known : Knowledge) {r : Rule} {es : List Element}
    (hes : es ∈ r.alternatives) :
    (sequenceFacts known es).Le (r.facts known) :=
  ⟨fun _ hk => mem_facts_first.2 ⟨es, hes, hk⟩, fun hn => facts_nullable.2 ⟨es, hes, hn⟩⟩

theorem facts_le_of_alternatives {known : Knowledge} {r : Rule}
    (h : ∀ es ∈ r.alternatives, (sequenceFacts known es).Le bound) : (r.facts known).Le bound := by
  refine ⟨fun k hk => ?_, fun hn => ?_⟩
  · obtain ⟨es, hes, hk⟩ := mem_facts_first.1 hk
    exact (h es hes).1 hk
  · obtain ⟨es, hes, hn⟩ := facts_nullable.1 hn
    exact (h es hes).2 hn

end Join

/-- A rule under preparation of which no more is said than what is learned of it. -/
structure Fits (g : RuleSet) (q : DraftRule) : Prop where
  facts : q.facts.Le (q.source.facts g.facts)
  listed : q.facts.Listed
  alternatives : ∀ a ∈ q.alternatives, a.facts.Le (sequenceFacts g.facts a.source)

structure Exact (g : RuleSet) (q : DraftRule) : Prop where
  facts : q.facts = q.source.facts g.facts
  alternatives : ∀ a ∈ q.alternatives, a.facts = sequenceFacts g.facts a.source

section Visit

variable {g : RuleSet}

def RuleSet.entry (g : RuleSet) (r : Rule) : Nat × Facts := (r.id, r.facts g.facts)

theorem map_entry (g : RuleSet) : g.rules.map g.entry = g.facts := learn_facts g

theorem source_draft (r : Rule) : r.draft.source = r := by
  simp [DraftRule.source, Rule.draft, ReadyAlternative.source, Function.comp_def]

theorem fits_draft (g : RuleSet) (r : Rule) : Fits g r.draft where
  facts := ⟨List.nil_subset _, nofun⟩
  listed := ⟨fun _ => false, by simp [DraftRule.facts, Rule.draft]⟩
  alternatives a ha := by
    obtain ⟨es, -, rfl⟩ := List.mem_map.1 ha
    exact ⟨List.nil_subset _, nofun⟩

theorem visit_le {known : Knowledge} (hknown : known.Le g.facts) {a : ReadyAlternative}
    (ha : a.facts.Le (sequenceFacts g.facts a.source)) :
    (a.visit known).facts.Le (sequenceFacts g.facts (a.visit known).source) := by
  have hseen := sequenceFacts_le hknown a.source
  exact ⟨fun k hk => (mem_union.1 hk).elim (@ha.1 k) (@hseen.1 k), hseen.2⟩

theorem visitAlternatives_source (known : Facts → Knowledge) (own : Facts)
    (as : List ReadyAlternative) :
    (visitAlternatives known own as).1.map ReadyAlternative.source =
      as.map ReadyAlternative.source := by
  induction as generalizing own with
  | nil => rfl
  | cons a as ih => exact congrArg (a.source :: ·) (ih _)

/-- Going through alternatives keeps within what is learned. -/
theorem visitAlternatives_le {known : Facts → Knowledge} {bound own : Facts}
    {as : List ReadyAlternative} (hknown : ∀ own : Facts, own.Le bound → (known own).Le g.facts)
    (hbound : ∀ a ∈ as, (sequenceFacts g.facts a.source).Le bound) (hown : own.Le bound)
    (listed : own.Listed) (has : ∀ a ∈ as, a.facts.Le (sequenceFacts g.facts a.source)) :
    (visitAlternatives known own as).2.1.Le bound ∧ (visitAlternatives known own as).2.1.Listed ∧
      ∀ a ∈ (visitAlternatives known own as).1, a.facts.Le (sequenceFacts g.facts a.source) := by
  induction as generalizing own with
  | nil => exact ⟨hown, listed, nofun⟩
  | cons a as ih =>
    have ha := visit_le (hknown own hown) (has a List.mem_cons_self)
    have hjoin := Facts.join_le hown (ha.trans (hbound a List.mem_cons_self))
    obtain ⟨hle, hlisted, hall⟩ := ih (fun b hb => hbound b (List.mem_cons_of_mem _ hb)) hjoin
      (union_listed _ _ _) fun b hb => has b (List.mem_cons_of_mem _ hb)
    exact ⟨hle, hlisted, List.forall_mem_cons.2 ⟨ha, hall⟩⟩

theorem visit_source (before after : Knowledge) (q : DraftRule) :
    (q.visit before after).1.source = q.source := by
  simp only [DraftRule.source, DraftRule.visit, visitAlternatives_source]

theorem visit_fits {before after : Knowledge} {q : DraftRule} (hq : Fits g q)
    (hknown : ∀ own : Facts, own.Le (q.source.facts g.facts) →
      Knowledge.Le (before ++ (q.id, own) :: after) g.facts) :
    Fits g (q.visit before after).1 := by
  have hbound : ∀ a ∈ q.alternatives, (sequenceFacts g.facts a.source).Le
    (q.source.facts g.facts) := fun a ha =>
    sequenceFacts_le_facts g.facts (List.mem_map_of_mem ha)
  obtain ⟨hle, hlisted, hall⟩ := visitAlternatives_le hknown hbound hq.facts
    hq.listed hq.alternatives
  refine ⟨?_, hlisted, hall⟩
  rw [visit_source]
  exact hle

theorem knowledgeOf_le {qs : List DraftRule} (h : ∀ q ∈ qs, Fits g q) :
    (knowledgeOf qs).Le ((qs.map DraftRule.source).map g.entry) := by
  unfold knowledgeOf Knowledge.Le
  rw [List.map_map, List.forall₂_map_left_iff, List.forall₂_map_right_iff]
  exact List.forall₂_same.2 fun q hq => ⟨rfl, (h q hq).facts⟩

theorem visitRules_source (before : Knowledge) (qs : List DraftRule) :
    (visitRules before qs).1.map DraftRule.source = qs.map DraftRule.source := by
  induction qs generalizing before with
  | nil => rfl
  | cons q qs ih => rw [visitRules_cons, List.map_cons, List.map_cons, visit_source, ih]

/-- A round keeps within what is learned. -/
theorem visitRules_fits {before : Knowledge} {done : List Rule} {qs : List DraftRule}
    (hall : (done ++ qs.map DraftRule.source).map g.entry = g.facts)
    (hbefore : before.Le (done.map g.entry))
    (h : ∀ q ∈ qs, Fits g q) : ∀ q ∈ (visitRules before qs).1, Fits g q := by
  induction qs generalizing done before with
  | nil => exact nofun
  | cons q qs ih =>
    obtain ⟨hq, hqs⟩ := List.forall_mem_cons.1 h
    have hknown : ∀ own : Facts, own.Le (q.source.facts g.facts) →
        Knowledge.Le (before ++ (q.id, own) :: knowledgeOf qs) g.facts := by
      intro own hown
      rw [← hall, List.map_append]
      exact List.rel_append hbefore (.cons ⟨rfl, hown⟩ (knowledgeOf_le hqs))
    have hvisit := visit_fits hq hknown
    have hnext : Knowledge.Le (before ++ [(q.visit before (knowledgeOf qs)).1.entry])
        ((done ++ [q.source]).map g.entry) := by
      rw [List.map_append]
      refine List.rel_append hbefore (.cons ⟨rfl, ?_⟩ .nil)
      rw [← visit_source before (knowledgeOf qs) q]
      exact hvisit.facts
    exact List.forall_mem_cons.2 ⟨hvisit, ih (by simpa using hall) hnext hqs⟩

end Visit

section Still

variable {g : RuleSet}

/-- The rule with what can be said of its alternatives from some knowledge. -/
def DraftRule.seen (known : Knowledge) (q : DraftRule) : DraftRule :=
  { q with alternatives := q.alternatives.map (·.visit known) }

theorem seen_source (known : Knowledge) (q : DraftRule) : (q.seen known).source = q.source := by
  simp only [DraftRule.source, DraftRule.seen, List.map_map]
  rfl

/-- Alternatives that add nothing are all seen with the same knowledge. -/
theorem visitAlternatives_still {known : Facts → Knowledge} {own : Facts}
    {as : List ReadyAlternative}
    (listed : own.Listed) (h : (visitAlternatives known own as).2.2 = false) :
    visitAlternatives known own as = (as.map (·.visit (known own)), own, false) ∧
      ∀ a ∈ as, (a.visit (known own)).facts.Le own := by
  induction as with
  | nil => exact ⟨rfl, nofun⟩
  | cons a as ih =>
    obtain ⟨hadds, hrest⟩ := Bool.or_eq_false_iff.1 h
    have hle := Facts.adds_eq_false_iff.1 hadds
    rw [Facts.join_eq_of_le listed hle] at hrest
    obtain ⟨heq, hall⟩ := ih hrest
    refine ⟨?_, List.forall_mem_cons.2 ⟨hle, hall⟩⟩
    rw [visitAlternatives, Facts.join_eq_of_le listed hle, heq, hadds]
    rfl

theorem visitRules_still {before : Knowledge} {qs : List DraftRule}
    (listed : ∀ q ∈ qs, q.facts.Listed) (h : (visitRules before qs).2 = false) :
    (visitRules before qs).1 = qs.map (·.seen (before ++ knowledgeOf qs)) ∧
      ∀ q ∈ qs, ∀ a ∈ q.alternatives, (a.visit (before ++ knowledgeOf qs)).facts.Le q.facts := by
  induction qs generalizing before with
  | nil => exact ⟨rfl, nofun⟩
  | cons q qs ih =>
    obtain ⟨hq, hqs⟩ := List.forall_mem_cons.1 listed
    rw [visitRules_cons] at h ⊢
    obtain ⟨hgrown, hmore⟩ := Bool.or_eq_false_iff.1 h
    obtain ⟨heq, hall⟩ := visitAlternatives_still hq hgrown
    have hvisit : (q.visit before (knowledgeOf qs)).1 =
        q.seen (before ++ knowledgeOf (q :: qs)) := by
      rw [DraftRule.visit, heq]
      rfl
    have hknown : before ++ [(q.seen (before ++ knowledgeOf (q :: qs))).entry] ++ knowledgeOf qs =
        before ++ knowledgeOf (q :: qs) := by
      rw [List.append_assoc]
      rfl
    rw [hvisit] at hmore ⊢
    obtain ⟨hrest, hrestAll⟩ := ih hqs hmore
    rw [hknown] at hrest hrestAll
    exact ⟨congrArg (q.seen _ :: ·) hrest, List.forall_mem_cons.2 ⟨hall, hrestAll⟩⟩

/-- Listed knowledge that says as much as other knowledge and no more. -/
theorem Knowledge.Le.antisymm {a b : Knowledge} (h : a.Le b) (h' : b.Le a) (ha : a.Listed)
    (hb : b.Listed) : a = b :=
  (h.amount_le ha hb).2 (Nat.le_antisymm (h.amount_le ha hb).1 (h'.amount_le hb ha).1)

theorem sequenceFacts_le_visit (known : Knowledge) (a : ReadyAlternative) :
    (sequenceFacts known a.source).Le (a.visit known).facts :=
  ⟨fun _ hk => mem_union.2 (.inr hk), id⟩

/-- Rules that say no more than is learned, and to which their alternatives add nothing, say all of
it: what they say is closed under learning. -/
theorem knowledgeOf_still {qs : List DraftRule} (hsource : qs.map DraftRule.source = g.rules)
    (h : ∀ q ∈ qs, Fits g q)
    (hadds : ∀ q ∈ qs, ∀ a ∈ q.alternatives, (a.visit (knowledgeOf qs)).facts.Le q.facts) :
    knowledgeOf qs = g.facts := by
  have hle : (knowledgeOf qs).Le g.facts := by
    have := knowledgeOf_le h
    rwa [hsource, map_entry] at this
  have hlearn : (g.learn (knowledgeOf qs)).Le (knowledgeOf qs) := by
    rw [RuleSet.learn, ← hsource, List.map_map]
    unfold Knowledge.Le
    nth_rewrite 2 [knowledgeOf]
    rw [List.forall₂_map_left_iff, List.forall₂_map_right_iff]
    refine List.forall₂_same.2 fun q hq => ⟨rfl, facts_le_of_alternatives fun es hes => ?_⟩
    obtain ⟨a, ha, rfl⟩ := List.mem_map.1 hes
    exact (sequenceFacts_le_visit _ a).trans (hadds q hq a ha)
  have hlisted : (knowledgeOf qs).Listed := by
    intro x hx
    obtain ⟨q, hq, rfl⟩ := List.mem_map.1 hx
    exact (h q hq).listed
  have hstart : g.ignorance.Le (knowledgeOf qs) := by
    unfold RuleSet.ignorance knowledgeOf Knowledge.Le
    rw [← hsource, List.map_map, List.forall₂_map_left_iff, List.forall₂_map_right_iff]
    exact List.forall₂_same.2 fun q _ => ⟨rfl, List.nil_subset _, fun h =>
      absurd h Bool.false_ne_true⟩
  exact hle.antisymm (facts_le_of_learn_le g hstart hlearn) hlisted
    (learn_facts g ▸ learn_listed g g.facts)

/-- A round that adds nothing to rules that say no more than is learned has found all of it. -/
theorem exact_of_still {qs : List DraftRule} (hsource : qs.map DraftRule.source = g.rules)
    (h : ∀ q ∈ qs, Fits g q)
    (hstill : (visitRules [] qs).2 = false) : ∀ q ∈ (visitRules [] qs).1, Exact g q := by
  obtain ⟨hround, hadds⟩ := visitRules_still (fun q hq => (h q hq).listed) hstill
  rw [List.nil_append] at hround hadds
  have hknown := knowledgeOf_still hsource h hadds
  have hentry : ∀ q ∈ qs, q.entry = g.entry q.source := by
    have := hknown.trans (map_entry g).symm
    rwa [← hsource, List.map_map, knowledgeOf, List.map_inj_left] at this
  rw [hround, hknown, List.forall_mem_map]
  intro q hq
  refine ⟨?_, List.forall_mem_map.2 fun a ha => ?_⟩
  · rw [seen_source]
    exact congrArg Prod.snd (hentry q hq)
  · have hle := visit_le (Knowledge.le_refl g.facts) ((h q hq).alternatives a ha)
    exact hle.antisymm (sequenceFacts_le_visit g.facts a) (union_listed _ _ _)
      (sequenceFacts_listed _ _)

/-- The rounds find all that is learned. -/
theorem Rounds.exact {n : Nat} {qs qs' : List DraftRule} (h : Rounds n qs qs')
    (hsource : qs.map DraftRule.source = g.rules) (hfits : ∀ q ∈ qs, Fits g q) :
    qs'.map DraftRule.source = g.rules ∧ ∀ q ∈ qs', Exact g q := by
  induction h with
  | last hstill =>
    exact ⟨(visitRules_source [] _).trans hsource, exact_of_still hsource hfits hstill⟩
  | @more _ rules _ _ _ ih =>
    have hall : ([] ++ rules.map DraftRule.source).map g.entry = g.facts := by
      rw [List.nil_append, hsource, map_entry]
    exact ih ((visitRules_source [] _).trans hsource) (visitRules_fits hall .nil hfits)

end Still

section Steady

variable {g : RuleSet}

theorem visit_eq {a : ReadyAlternative} (h : a.facts = sequenceFacts g.facts a.source) :
    a.visit g.facts = a := by
  have hjoin := Facts.join_eq_of_le (sequenceFacts_listed g.facts a.source) (Facts.le_refl _)
  have hfirst : union a.first (sequenceFacts g.facts a.source).first = a.first := by
    have := congrArg Facts.first hjoin
    rwa [← h] at this ⊢
  have hnull : (sequenceFacts g.facts a.source).nullable = a.nullable :=
    congrArg Facts.nullable h.symm
  simp only [ReadyAlternative.visit, hfirst, hnull]

theorem visitAlternatives_exact {known : Facts → Knowledge} {own : Facts}
    {as : List ReadyAlternative}
    (hknown : known own = g.facts) (listed : own.Listed) (hown : ∀ a ∈ as, a.facts.Le own)
    (h : ∀ a ∈ as, a.facts = sequenceFacts g.facts a.source) :
    visitAlternatives known own as = (as, own, false) := by
  induction as with
  | nil => rfl
  | cons a as ih =>
    obtain ⟨ha, has⟩ := List.forall_mem_cons.1 h
    obtain ⟨hle, hrest⟩ := List.forall_mem_cons.1 hown
    rw [visitAlternatives, hknown, visit_eq ha, Facts.join_eq_of_le listed hle, ih hrest has,
      Facts.adds_eq_false_iff.2 hle]
    rfl

theorem visitRules_exact {before : Knowledge} {qs : List DraftRule}
    (hknown : before ++ knowledgeOf qs = g.facts)
    (h : ∀ q ∈ qs, Exact g q) : visitRules before qs = (qs, false) := by
  induction qs generalizing before with
  | nil => rfl
  | cons q qs ih =>
    obtain ⟨hq, hqs⟩ := List.forall_mem_cons.1 h
    have hown : ∀ a ∈ q.alternatives, a.facts.Le q.facts := by
      intro a ha
      rw [hq.alternatives a ha, hq.facts]
      exact sequenceFacts_le_facts g.facts (List.mem_map_of_mem ha)
    have hvisit : q.visit before (knowledgeOf qs) = (q, false) := by
      have listed : q.facts.Listed := hq.facts ▸ q.source.facts_listed g.facts
      rw [DraftRule.visit, visitAlternatives_exact hknown listed hown hq.alternatives]
      rfl
    have hnext : before ++ [q.entry] ++ knowledgeOf qs = g.facts := by
      rw [List.append_assoc]
      exact hknown
    rw [visitRules_cons, hvisit, ih hnext hqs]
    rfl

theorem knowledgeOf_exact {qs : List DraftRule} (hsource : qs.map DraftRule.source = g.rules)
    (h : ∀ q ∈ qs, Exact g q) : knowledgeOf qs = g.facts := by
  rw [← map_entry g, ← hsource, List.map_map]
  exact List.map_congr_left fun q hq => Prod.ext rfl (h q hq).facts

/-- Where all is known the rounds change nothing. -/
theorem settle_exact {qs : List DraftRule} (hsource : qs.map DraftRule.source = g.rules)
    (h : ∀ q ∈ qs, Exact g q) :
    settle qs = qs := by
  have hround : visitRules [] qs = (qs, false) := visitRules_exact (knowledgeOf_exact hsource h) h
  rw [settle, hround]
  rfl

end Steady

section Steer

variable {g : RuleSet} {known : Knowledge}

theorem steer_element_source (as : List ReadyElement) :
    (as.map (·.steer known)).map ReadyElement.element = as.map ReadyElement.element := by
  rw [List.map_map]
  rfl

theorem steer_source (q : DraftRule) : (q.steer known).source = q.source := by
  simp only [DraftRule.source, DraftRule.steer, List.map_map]
  congr 1
  exact List.map_congr_left fun a _ => steer_element_source a.elements

theorem steer_exact {q : DraftRule} (h : Exact g q) : Exact g (q.steer known) := by
  refine ⟨?_, List.forall_mem_map.2 fun a ha => ?_⟩
  · rw [steer_source]
    exact h.facts
  · rw [ReadyAlternative.source, steer_element_source]
    exact h.alternatives a ha

theorem steer_steer (q : DraftRule) : (q.steer known).steer known = q.steer known := by
  simp only [DraftRule.steer, List.map_map, Function.comp_def, ReadyElement.steer]

theorem steerRules_cons (q : DraftRule) (qs : List DraftRule) :
    steerRules known (q :: qs) = match (q.steer known).conflict? known with
      | some fault => (some fault, q.steer known :: qs)
      | none => ((steerRules known qs).1, q.steer known :: (steerRules known qs).2) := rfl

/-- Steering rules once more changes nothing. -/
theorem steerRules_steerRules (qs : List DraftRule) :
    steerRules known (steerRules known qs).2 = steerRules known qs := by
  induction qs with
  | nil => rfl
  | cons q qs ih =>
    rw [steerRules_cons]
    cases h : (q.steer known).conflict? known with
    | some fault => rw [steerRules_cons, steer_steer, h]
    | none => rw [steerRules_cons, steer_steer, h, ih]

theorem steerRules_source (qs : List DraftRule) :
    (steerRules known qs).2.map DraftRule.source = qs.map DraftRule.source := by
  induction qs with
  | nil => rfl
  | cons q qs ih =>
    rw [steerRules_cons]
    cases (q.steer known).conflict? known with
    | some fault => rw [List.map_cons, steer_source, List.map_cons]
    | none => rw [List.map_cons, steer_source, List.map_cons, ih]

theorem steerRules_exact {qs : List DraftRule} (h : ∀ q ∈ qs, Exact g q) :
    ∀ q ∈ (steerRules known qs).2, Exact g q := by
  induction qs with
  | nil => exact nofun
  | cons q qs ih =>
    obtain ⟨hq, hqs⟩ := List.forall_mem_cons.1 h
    rw [steerRules_cons]
    cases (q.steer known).conflict? known with
    | some fault => exact List.forall_mem_cons.2 ⟨steer_exact hq, hqs⟩
    | none => exact List.forall_mem_cons.2 ⟨steer_exact hq, ih hqs⟩

/-- Rules are steered to the end if none has a conflict. -/
theorem steerRules_eq_none_iff (qs : List DraftRule) :
    (steerRules known qs).1 = none ↔ ∀ q ∈ qs, (q.steer known).conflict? known = none := by
  induction qs with
  | nil => exact ⟨fun _ => nofun, fun _ => rfl⟩
  | cons q qs ih =>
    rw [steerRules_cons, List.forall_mem_cons]
    cases h : (q.steer known).conflict? known with
    | some fault => exact ⟨nofun, fun h => nomatch h.1⟩
    | none => exact ih.trans ⟨fun h => ⟨rfl, h⟩, And.right⟩

end Steer

section Conflict

variable {g : RuleSet} {known : Knowledge}

theorem overlap_isEmpty {a b : List Kind} : (overlap a b).isEmpty = true ↔ ∀ k ∈ a, k ∉ b := by
  simp [overlap, mem_all]

theorem startFault?_eq_none_iff {name : String} {i : Nat} {a : ReadyAlternative}
    {later : List ReadyAlternative} :
    startFault? name i a later = none ↔ ∀ b ∈ later, ∀ k ∈ a.first, k ∉ b.first := by
  have hfst : (∀ b ∈ later, ∀ k ∈ a.first, k ∉ b.first) ↔ ∀ x ∈ later.zipIdx, ∀ k ∈ a.first,
      k ∉ x.1.first := by
    conv_lhs => rw [← List.zipIdx_map_fst 0 later]
    exact List.forall_mem_map
  rw [hfst, startFault?, List.findSome?_eq_none_iff]
  refine forall₂_congr fun x _ => ?_
  rw [← overlap_isEmpty]
  dsimp only
  split
  · rename_i h
    exact ⟨fun _ => h, fun _ => rfl⟩
  · rename_i h
    exact ⟨nofun, fun h' => absurd h' h⟩

/-- The elements of a sequence that need not match a fixed number of times start with no token of
what follows. -/
def Unmistakable (known : Knowledge) (es : List ReadyElement) : Prop :=
  ∀ (before : List ReadyElement) (e : ReadyElement) (after : List ReadyElement),
    es = before ++ e :: after → e.element.sameBounds = false →
    ∀ k ∈ e.first, k ∉ (sequenceFacts known (after.map (·.element))).first

theorem unmistakable_cons {e : ReadyElement} {es : List ReadyElement} :
    Unmistakable known (e :: es) ↔
    (e.element.sameBounds = false → ∀ k ∈ e.first,
      k ∉ (sequenceFacts known (es.map (·.element))).first) ∧
      Unmistakable known es := by
  constructor
  · intro h
    exact ⟨h [] e es rfl, fun before d after heq => h (e :: before) d after (congrArg (e :: ·) heq)⟩
  · rintro ⟨he, hes⟩ before d after heq
    cases before with
    | nil =>
      cases heq
      exact he
    | cons c before =>
      cases heq
      exact hes before d after rfl

theorem repeatFault?_eq_none_iff {name : String} {n : Nat} {es : List ReadyElement} :
    repeatFault? known name n es = none ↔ Unmistakable known es := by
  induction es generalizing n with
  | nil => exact ⟨fun _ before e after h => absurd h.symm (by simp), fun _ => rfl⟩
  | cons e es ih =>
    rw [unmistakable_cons, ← overlap_isEmpty, repeatFault?]
    split
    · rename_i h
      rw [ih, and_iff_right]
      intro hbounds
      simpa [hbounds] using h
    · rename_i h
      refine ⟨nofun, fun ⟨he, _⟩ => absurd ?_ h⟩
      cases hbounds : e.element.sameBounds with
      | true => rfl
      | false => exact he hbounds

theorem conflictFrom?_eq_none_iff {name : String} {i : Nat} {as : List ReadyAlternative} :
    conflictFrom? known name i as = none ↔
      as.Pairwise (fun a b => ∀ k ∈ a.first, k ∉ b.first) ∧ ∀ a ∈ as,
        Unmistakable known a.elements := by
  induction as generalizing i with
  | nil => exact ⟨fun _ => ⟨.nil, nofun⟩, fun _ => rfl⟩
  | cons a as ih =>
    rw [conflictFrom?, Option.or_eq_none_iff, Option.or_eq_none_iff, startFault?_eq_none_iff,
      repeatFault?_eq_none_iff, ih, List.pairwise_cons, List.forall_mem_cons]
    tauto

/-- At most one member has a property if no two have. -/
theorem length_filter_le_one {α : Type} {p : α → Bool} {l : List α} :
    ¬1 < (l.filter p).length ↔ l.Pairwise fun a b => p a = true → p b = false := by
  induction l with
  | nil => simp
  | cons a l ih =>
    rw [List.pairwise_cons, ← ih]
    cases ha : p a with
    | false => simp [ha]
    | true =>
      have hnone : ¬1 < ((a :: l).filter p).length ↔ ∀ b ∈ l, p b = false := by
        simp [ha]
      rw [hnone]
      refine ⟨fun h => ⟨fun b hb _ => h b hb, ?_⟩, fun h b hb => h.1 b hb rfl⟩
      have hempty : l.filter p = [] := List.filter_eq_nil_iff.2 fun b hb => by simp [h b hb]
      simp [hempty]

/-- One token of lookahead steers a rule: its alternatives start with different tokens and no two of
them match nothing, and an element that need not match a fixed number of times starts with no token
of what follows it. -/
structure Steerable (g : RuleSet) (r : Rule) : Prop where
  apart : r.alternatives.Pairwise fun a b =>
    ∀ k, StartsIn (Nullable g) (First g) a k → ¬StartsIn (Nullable g) (First g) b k
  single : r.alternatives.Pairwise fun a b => SkipsAll (Nullable g) a → ¬SkipsAll (Nullable g) b
  repeated : ∀ es ∈ r.alternatives, ∀ before e after, es = before ++ e :: after →
    e.least ≠ e.most.getD unbounded.toNat → ∀ k, e.Starts (First g) k →
      ¬StartsIn (Nullable g) (First g) after k

section Steerable

variable (distinct : (g.rules.map Rule.id).Nodup)
include distinct

theorem sequence_nullable_facts (es : List Element) :
    (sequenceFacts g.facts es).nullable = true ↔ SkipsAll (Nullable g) es := by
  rw [sequence_nullable, vanishes_facts distinct]

theorem mem_sequence_facts (es : List Element) (k : Kind) :
    k ∈ (sequenceFacts g.facts es).first ↔ StartsIn (Nullable g) (First g) es k := by
  rw [mem_sequence_first, vanishes_facts distinct, startsWith_facts distinct]

theorem mem_element_facts (e : Element) (k : Kind) : k ∈ (e.facts g.facts).first ↔
    e.Starts (First g) k := by
  rw [mem_element_first, startsWith_facts distinct]

/-- A sequence of elements with the tokens each can start with. -/
theorem unmistakable_iff (es : List ReadyElement) :
    Unmistakable g.facts (es.map (·.steer g.facts)) ↔
    ∀ before e after, es.map ReadyElement.element = before ++ e :: after →
      e.least ≠ e.most.getD unbounded.toNat →
      ∀ k, e.Starts (First g) k → ¬StartsIn (Nullable g) (First g) after k := by
  have hbounds : ∀ e : Element, e.sameBounds = false ↔ e.least ≠ e.most.getD unbounded.toNat := by
    intro e
    rw [Element.sameBounds, beq_eq_false_iff_ne, ne_comm]
  constructor
  · intro h before e after heq hne k
    obtain ⟨xs, ys, rfl, rfl, hys⟩ := List.map_eq_append_iff.1 heq
    obtain ⟨y, zs, rfl, rfl, rfl⟩ := List.map_eq_cons_iff.1 hys
    have hk := h (xs.map (·.steer g.facts)) (y.steer g.facts) (zs.map (·.steer g.facts)) (by simp)
      ((hbounds _).2 hne) k
    rw [steer_element_source, mem_sequence_facts distinct] at hk
    rw [← mem_element_facts distinct]
    exact hk
  · intro h before e after heq hne k hk
    obtain ⟨xs, ys, rfl, rfl, hys⟩ := List.map_eq_append_iff.1 heq
    obtain ⟨y, zs, rfl, rfl, rfl⟩ := List.map_eq_cons_iff.1 hys
    rw [steer_element_source, mem_sequence_facts distinct]
    exact h (xs.map (·.element)) y.element (zs.map (·.element)) (by simp) ((hbounds _).1 hne) k
      ((mem_element_facts distinct _ k).1 hk)

theorem conflict?_eq_none_iff {q : DraftRule} (hq : Exact g q) :
    (q.steer g.facts).conflict? g.facts = none ↔ Steerable g q.source := by
  have hfirst : ∀ a ∈ q.alternatives, ∀ k, k ∈ a.first ↔
      StartsIn (Nullable g) (First g) a.source k := by
    intro a ha k
    rw [← mem_sequence_facts distinct, ← hq.alternatives a ha]
    rfl
  have hnull : ∀ a ∈ q.alternatives, a.nullable = true ↔ SkipsAll (Nullable g) a.source := by
    intro a ha
    rw [← sequence_nullable_facts distinct, ← hq.alternatives a ha]
    rfl
  have hapart : (q.steer g.facts).alternatives.Pairwise (fun a b => ∀ k ∈ a.first, k ∉ b.first) ↔
      q.source.alternatives.Pairwise fun a b =>
        ∀ k, StartsIn (Nullable g) (First g) a k → ¬StartsIn (Nullable g) (First g) b k := by
    rw [DraftRule.steer, DraftRule.source, List.pairwise_map, List.pairwise_map]
    refine List.Pairwise.iff_of_mem fun {a b} ha hb => forall_congr' fun k => ?_
    rw [hfirst a ha, hfirst b hb]
  have hsingle : ¬1 < ((q.steer g.facts).alternatives.filter (·.nullable)).length ↔
      q.source.alternatives.Pairwise fun a b =>
        SkipsAll (Nullable g) a → ¬SkipsAll (Nullable g) b := by
    rw [length_filter_le_one, DraftRule.steer, DraftRule.source, List.pairwise_map,
      List.pairwise_map]
    refine List.Pairwise.iff_of_mem fun {a b} ha hb => ?_
    rw [← hnull a ha, ← hnull b hb, Bool.not_eq_true]
  have hrepeated : (∀ a ∈ (q.steer g.facts).alternatives, Unmistakable g.facts a.elements) ↔
      ∀ es ∈ q.source.alternatives, ∀ before e after, es = before ++ e :: after →
        e.least ≠ e.most.getD unbounded.toNat →
          ∀ k, e.Starts (First g) k → ¬StartsIn (Nullable g) (First g) after k := by
    rw [DraftRule.steer, DraftRule.source, List.forall_mem_map, List.forall_mem_map]
    exact forall₂_congr fun a _ => unmistakable_iff distinct a.elements
  rw [ReadyRule.conflict?, Option.or_eq_none_iff, conflictFrom?_eq_none_iff, hapart, hrepeated]
  simp only [ite_eq_right_iff, reduceCtorEq, imp_false, hsingle]
  exact ⟨fun ⟨⟨hapart, hrepeated⟩, hsingle⟩ => ⟨hapart, hsingle, hrepeated⟩,
    fun ⟨hapart, hsingle, hrepeated⟩ => ⟨⟨hapart, hrepeated⟩, hsingle⟩⟩

end Steerable

end Conflict

section Prepare

variable {g : RuleSet}

/-- The shape that the rules of a grammar need: different numbers, a start rule, an alternative for
each rule and references to rules of the grammar. -/
structure RuleSet.Proper (g : RuleSet) : Prop where
  distinct : (g.rules.map Rule.id).Nodup
  start : ∃ r ∈ g.rules, r.id = g.start
  alternatives : ∀ r ∈ g.rules, r.alternatives ≠ []
  defined : ∀ r ∈ g.rules, ∀ es ∈ r.alternatives, ∀ e ∈ es, ∀ id, e.target = .rule id →
    ∃ q ∈ g.rules, q.id = id

theorem shapeFault?_eq_none (proper : g.Proper) {d : Draft} (hd : d.source = g) :
    d.shapeFault? = none := by
  have hany : d.rules.any (·.id == d.start) = true := by
    obtain ⟨r, hr, hid⟩ := proper.start
    rw [← hd] at hr hid
    obtain ⟨q, hq, rfl⟩ := List.mem_map.1 hr
    exact List.any_eq_true.2 ⟨q, hq, beq_iff_eq.2 hid⟩
  rw [Draft.shapeFault?, hany, hd]
  simp only [Bool.not_true, Bool.false_eq_true, if_false, List.findSome?_eq_none_iff]
  intro r hr
  rw [Rule.shapeFault?, if_neg (by simpa using proper.alternatives r hr),
    List.findSome?_eq_none_iff]
  intro e he
  obtain ⟨es, hes, he⟩ := List.mem_flatten.1 he
  cases ht : e.target with
  | token k => rfl
  | rule id =>
    obtain ⟨q, hq, hid⟩ := proper.defined r hr es hes e he id ht
    have hany : g.rules.any (·.id == id) = true := List.any_eq_true.2 ⟨q, hq, beq_iff_eq.2 hid⟩
    exact if_pos hany

/-- What a preparation of a grammar comes to: its rounds end, the sets are the least ones, it has no
fault just if one token of lookahead steers every rule, and another preparation gives and leaves the
same. -/
structure Prepared (g : RuleSet) (fault : Option GrammarFault) (d : Draft) : Prop where
  ends : ∃ n ≤ g.rules.length * (Kind.all.length + 1) + 1,
    Rounds n g.draft.rules (settle g.draft.rules)
  rules : d.rules.map DraftRule.source = g.rules
  nullable : ∀ q ∈ d.rules, q.nullable = true ↔ Nullable g q.id
  first : ∀ q ∈ d.rules, ∀ k, k ∈ q.first ↔ First g q.id k
  steerable : fault = none ↔ ∀ r ∈ g.rules, Steerable g r
  again : d.prepare = (fault, d)

theorem settle_draft (g : RuleSet) : ∃ n ≤ g.rules.length * (Kind.all.length + 1) + 1,
    Rounds n g.draft.rules (settle g.draft.rules) := by
  obtain ⟨n, hn, hrounds⟩ := settle_rounds g.draft.rules
  rw [lack_draft] at hn
  exact ⟨n, hn, hrounds⟩

theorem source_draft_rules (g : RuleSet) : g.draft.rules.map DraftRule.source = g.rules := by
  rw [RuleSet.draft, List.map_map]
  exact (List.map_congr_left fun r _ => source_draft r).trans (List.map_id _)

theorem settle_draft_exact (g : RuleSet) : (settle g.draft.rules).map DraftRule.source = g.rules ∧
    ∀ q ∈ settle g.draft.rules, Exact g q := by
  obtain ⟨n, -, hrounds⟩ := settle_draft g
  exact hrounds.exact (source_draft_rules g) (List.forall_mem_map.2 fun r _ => fits_draft g r)

/-- A preparation whose rounds find all that is learned. -/
theorem prepare_eq (proper : g.Proper) {d : Draft} (hd : d.source = g) (h : d.prepared = false)
    (hsource : (settle d.rules).map DraftRule.source = g.rules)
    (hexact : ∀ q ∈ settle d.rules, Exact g q) :
    d.prepare = ((steerRules g.facts (settle d.rules)).1,
      ⟨d.start, (steerRules g.facts (settle d.rules)).2,
        (steerRules g.facts (settle d.rules)).1.isNone⟩) := by
  simp only [Draft.prepare, h, shapeFault?_eq_none proper hd, knowledgeOf_exact hsource hexact,
    Bool.false_eq_true, if_false]

/-- Preparing a grammar of the proper shape ends, with the exact sets, and refuses it just if one
token of lookahead does not steer it; preparing it again changes nothing. -/
theorem prepare_lookahead (proper : g.Proper) : Prepared g g.draft.prepare.1 g.draft.prepare.2 := by
  obtain ⟨hsource, hexact⟩ := settle_draft_exact g
  have hdraft : g.draft.source = g := congrArg (RuleSet.mk g.start) (source_draft_rules g)
  have hrules : (steerRules g.facts (settle g.draft.rules)).2.map DraftRule.source = g.rules :=
    (steerRules_source _).trans hsource
  have hall : ∀ q ∈ (steerRules g.facts (settle g.draft.rules)).2, Exact g q :=
    steerRules_exact hexact
  have hmem : ∀ q ∈ (steerRules g.facts (settle g.draft.rules)).2, q.facts = g.facts.get q.id := by
    intro q hq
    have hrule : q.source ∈ g.rules := hrules ▸ List.mem_map_of_mem hq
    rw [(hall q hq).facts]
    exact (get_facts proper.distinct hrule).symm
  rw [prepare_eq proper hdraft rfl hsource hexact]
  refine ⟨settle_draft g, hrules, fun q hq => ?_, fun q hq k => ?_, ?_, ?_⟩
  · rw [← vanishes_facts proper.distinct, Knowledge.Vanishes, ← hmem q hq]
    rfl
  · rw [← startsWith_facts proper.distinct, Knowledge.StartsWith, ← hmem q hq]
    rfl
  · rw [steerRules_eq_none_iff, ← hsource, List.forall_mem_map]
    exact forall₂_congr fun q hq => conflict?_eq_none_iff proper.distinct (hexact q hq)
  · cases hfault : (steerRules g.facts (settle g.draft.rules)).1 with
    | none => rfl
    | some fault =>
      have hsettle := settle_exact hrules hall
      have hagain := @prepare_eq g proper ⟨g.start,
        (steerRules g.facts (settle g.draft.rules)).2, false⟩
        (congrArg (RuleSet.mk g.start) hrules) rfl (hsettle.symm ▸ hrules) (hsettle.symm ▸ hall)
      simp only [hsettle, steerRules_steerRules, hfault] at hagain
      exact hagain

/-- A list of names in brackets, where the rule of its rest refers to itself. -/
def nameList : RuleSet :=
  ⟨1, [⟨1, "List", false,
      [[⟨.token .bracketOpen, 1, some 1⟩, ⟨.rule 2, 0, some 1⟩,
        ⟨.token .bracketClose, 1, some 1⟩]]⟩,
    ⟨2, "Names", true, [[⟨.token .identifier, 1, some 1⟩, ⟨.rule 3, 1, some 1⟩]]⟩,
    ⟨3, "Rest", true, [[⟨.token .separator, 1, some 1⟩, ⟨.rule 2, 1, some 1⟩], []]⟩]⟩

theorem prepare_nameList : nameList.Proper ∧ nameList.draft.prepare.1 = none ∧
    Prepared nameList nameList.draft.prepare.1 nameList.draft.prepare.2 := by
  have htargets : ∀ r ∈ nameList.rules, ∀ es ∈ r.alternatives, ∀ e ∈ es,
    e.target ∈ [Target.token .bracketOpen,
      .token .bracketClose, .token .identifier, .token .separator, .rule 2, .rule 3] := by
    decide
  have proper : nameList.Proper := by
    refine ⟨by decide, by decide, by decide, fun r hr es hes e he id hid => ?_⟩
    have hid : id = 2 ∨ id = 3 := by simpa [hid] using htargets r hr es hes e he
    rcases hid with rfl | rfl
    · decide
    · decide
  exact ⟨proper, by decide +kernel, prepare_lookahead proper⟩

end Prepare

end Formulary.Grammar
