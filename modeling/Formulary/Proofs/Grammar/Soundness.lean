import Formulary.Proofs.Grammar.Growth
import Formulary.Proofs.Grammar.Stream

/-!
# What a parse without problems derives

A parser that ends without problems has passed tokens whose kinds its rule derives, these tokens are
the leaves of its tree, and its tree is one that the rule grows. The loop over an element stops only
where its bounds allow it: there are never more repetitions than tokens.
-/

namespace Formulary.Grammar

open Lexical (Kind Lexeme Token)

def RuleSet.ready (g : RuleSet) : Ready := ⟨g.start, g.rules.map (Rule.ready g.facts)⟩

def Element.ready (known : Knowledge) (e : Element) : ReadyElement := ⟨e, (e.facts known).first⟩

section Leads

variable {g : Ready} {separator : Nat} {parse : ReadyRule → State → Outcome (Option Tree)}

/-- The loop over an element keeps problems. -/
theorem parseElement_leads (hparse : ∀ r s t s', parse r s = .ok (t, s') → s.Leads s')
    {e : ReadyElement} {fuel n : Nat} {children children' : List Tree} {s s' : State}
    (h : parseElement g separator parse e fuel n children s = .ok (children', s')) :
    s.Leads s' := by
  induction fuel generalizing n children s with
  | zero =>
    cases h
    exact .refl _
  | succ fuel ih =>
    rw [parseElement] at h
    split at h
    · cases h
      exact .refl _
    · split at h
      · split at h
        · exact (State.leads_advance s).trans (ih h)
        · cases h
          exact (State.leads_report s _ _).trans (State.leads_skip _)
      · split at h
        · cases h
          exact .refl _
        · split at h
          · cases h
          · rename_i hrun
            cases h
            exact hparse _ _ _ _ hrun
          · rename_i hrun
            have hlead := hparse _ _ _ _ hrun
            simp only at h
            split at h
            · cases h
              exact hlead
            · exact hlead.trans (ih h)

theorem parseElements_leads (hparse : ∀ r s t s', parse r s = .ok (t, s') → s.Leads s')
    {es : List ReadyElement} {children children' : List Tree} {s s' : State}
    (h : parseElements g separator parse es children s = .ok (children', s')) : s.Leads s' := by
  induction es generalizing children s with
  | nil =>
    cases h
    exact .refl _
  | cons e es ih =>
    rw [parseElements] at h
    split at h
    · cases h
    · rename_i hrun
      exact (parseElement_leads hparse hrun).trans (ih h)

/-- A rule keeps problems. -/
theorem parseRule_leads {depth : Nat} {r : ReadyRule} {t : Option Tree} {s s' : State}
    (h : parseRule g separator depth r s = .ok (t, s')) : s.Leads s' := by
  induction depth generalizing r t s s' with
  | zero => cases h
  | succ depth ih =>
    rw [parseRule] at h
    split at h
    · cases h
      exact (State.leads_report s _ _).trans (State.leads_skip _)
    · split at h
      · cases h
      · rename_i hrun
        cases h
        exact parseElements_leads (fun r s t s' => ih) hrun

end Leads

section Sound

variable {g : RuleSet} {starts follow : Nat → List Kind} {separator : Nat}
  {parse : ReadyRule → State → Outcome (Option Tree)}

theorem rule?_ready (distinct : (g.rules.map Rule.id).Nodup) {r : Rule} (hr : r ∈ g.rules) :
    g.ready.rule? r.id = some (r.ready g.facts) := by
  have hfind : ∀ (l : List Rule), r ∈ l → (l.map Rule.id).Nodup →
      (l.map (Rule.ready g.facts)).find? (fun x => x.id == r.id) = some (r.ready g.facts) := by
    intro l
    induction l with
    | nil => exact fun h => nomatch h
    | cons q l ih =>
      intro hmem hdistinct
      obtain ⟨hq, hl⟩ := List.nodup_cons.1 hdistinct
      rw [List.map_cons, List.find?_cons]
      rcases List.mem_cons.1 hmem with rfl | hmem
      · simp [Rule.ready]
      · have hne : ((q.ready g.facts).id == r.id) = false := by
          have := fun h : q.id = r.id => hq (h ▸ List.mem_map_of_mem hmem)
          simpa [Rule.ready] using this
        simp only [hne]
        exact ih hmem hl
  rw [Ready.rule?, RuleSet.ready, ← List.map_reverse]
  refine hfind _ (List.mem_reverse.2 hr) ?_
  rw [List.map_reverse]
  exact List.pairwise_reverse.2 (distinct.imp Ne.symm)

/-- A parser of rules whose outcomes without problems are grown: the tokens passed are the leaves of
the tree. -/
def Growing (g : RuleSet) (parse : ReadyRule → State → Outcome (Option Tree)) : Prop :=
  ∀ r ∈ g.rules, ∀ s t s', s.Stream → s.Calm → parse (r.ready g.facts) s = .ok (t, s') →
    s'.problems = [] →
    ∃ tree, t = some tree ∧ s.Consumes tree.leaves s' ∧ Grows g (.rule r.id) (tree.added r.hidden)

/-- The trees a rule grows have tokens. -/
theorem RuleSet.Predictive.leaves_ne_nil (predictive : g.Predictive starts follow) {id : Nat}
    {ts : List Tree}
    (h : Grows g (.rule id) ts) : Tree.leavesOf ts ≠ [] := by
  intro hnil
  have hderives := h.derives
  rw [hnil] at hderives
  exact predictive.ne_nil hderives rfl

/-- The loop over an element: without problems it grows as many copies as the element allows. -/
theorem parseElement_sound (predictive : g.Predictive starts follow)
    (hparse : ∀ r s t s', parse r s = .ok (t, s') → s.Leads s')
    (sound : Growing g parse) {e : Element}
    (bounds : e.least ≤ e.most.getD e.least) (inner : ∀ k, e.target = .token k → k ≠ .eof)
    (defined : ∀ id, e.target = .rule id → ∃ r ∈ g.rules, r.id = id) {fuel n : Nat}
    {children children' : List Tree}
    {s s' : State} (hs : s.Stream) (hcalm : s.Calm) (fits : ∀ m, e.most = some m → n ≤ m)
    (enough : s.upcoming.length < fuel)
    (h : parseElement g.ready separator parse (e.ready g.facts) fuel n children s =
      .ok (children', s'))
    (hclean : s'.problems = []) :
    ∃ m ts, s.Consumes (Tree.leavesOf ts) s' ∧ children' = ts.reverse ++ children ∧
      e.Counts (n + m) ∧
      Grows g (.copies e m) ts := by
  induction fuel generalizing n children s with
  | zero => exact absurd enough (Nat.not_lt_zero _)
  | succ fuel ih =>
    rw [parseElement] at h
    split at h
    · -- The loop stops: the element has reached its bound, or it has enough copies and something
      -- else follows.
      rename_i hstop
      cases h
      refine ⟨0, [], .refl hs, rfl, ⟨?_, fits⟩, .none⟩
      simp only [Element.ready, Bool.or_eq_true, Bool.not_eq_true', Bool.and_eq_true] at hstop
      rcases hstop with hstop | ⟨hleast, -⟩
      · unfold Element.allows at hstop
        cases hmost : e.most with
        | none => simp [hmost] at hstop
        | some m =>
          simp only [hmost, decide_eq_false_iff_not, Option.getD_some] at hstop bounds
          show e.least ≤ n + 0
          omega
      · exact of_decide_eq_true hleast
    · rename_i hgo
      have hmore : ∀ m, e.most = some m → n + 1 ≤ m := by
        intro m hm
        simp only [Element.ready, Element.allows, hm, Bool.or_eq_true, not_or, Bool.not_eq_true',
          decide_eq_false_iff_not, Decidable.not_not] at hgo
        exact hgo.1
      split at h
      · rename_i k hk
        have hk : e.target = .token k := hk
        split at h
        · rename_i hnext
          have hnext : s.next.kind = k := by simpa using hnext
          have hne : s.next.kind ≠ .eof := hnext ▸ inner k hk
          have hpassed : s.advance.problems = [] := (parseElement_leads hparse h).problems hclean
          have hone := State.Consumes.advance hs hne hpassed
          have hfuel : s.advance.upcoming.length < fuel := by
            rw [hone.upcoming] at enough
            simp only [List.map_cons, List.map_nil, List.length_append, List.length_cons,
              List.length_nil] at enough
            omega
          obtain ⟨m, ts, hmany, rfl, hcounts, hgrows⟩ :=
            ih hs.advance ((State.leads_advance s).calm hcalm) hmore hfuel h
          refine ⟨m + 1, .leaf s.next :: ts, hone.trans
            hmany, by simp, ?_, .token (by rw [hk, hnext]) hgrows⟩
          rwa [Nat.add_assoc, Nat.add_comm 1] at hcounts
        · cases h
          exact absurd ((State.leads_skip _).problems hclean)
            (State.report_problems_ne_nil hcalm _ _)
      · rename_i id hid
        have hid : e.target = .rule id := hid
        obtain ⟨r, hr, rfl⟩ := defined id hid
        rw [rule?_ready predictive.distinct hr] at h
        simp only at h
        split at h
        · cases h
        · rename_i hrun
          cases h
          obtain ⟨tree, hnone, -⟩ := sound r hr _ _ _ hs hcalm hrun hclean
          cases hnone
        · rename_i tree s₁ hrun
          have hlead := hparse _ _ _ _ hrun
          replace h : (if (s₁.next.place.offset == s.next.place.offset) = true then
              .ok ((tree.added r.hidden).reverse ++ children, s₁)
            else parseElement g.ready separator parse (e.ready g.facts) fuel (n + 1)
              ((tree.added r.hidden).reverse ++ children) s₁) = .ok (children', s') := by
            rw [← h]
            cases tree <;> rfl
          split at h
          · -- A rule that passes no token grows nothing, and no rule does.
            rename_i hsame
            cases h
            obtain ⟨tree', htree, hone, hgrows⟩ := sound r hr _ _ _ hs hcalm hrun hclean
            have hleaves := predictive.leaves_ne_nil hgrows
            rw [Tree.leavesOf_added] at hleaves
            exact absurd (by simpa using hsame) (hone.offset_ne hs hleaves)
          · have hpassed : s₁.problems = [] := (parseElement_leads hparse h).problems hclean
            obtain ⟨tree', htree, hone, hgrows⟩ := sound r hr _ _ _ hs hcalm hrun hpassed
            cases htree
            have hleaves := predictive.leaves_ne_nil hgrows
            rw [Tree.leavesOf_added] at hleaves
            have hfuel : s₁.upcoming.length < fuel := by
              have hpos := List.length_pos_iff.2 hleaves
              rw [hone.upcoming] at enough
              simp only [List.length_append, List.length_map] at enough
              omega
            obtain ⟨m, ts, hmany, rfl, hcounts, hmore'⟩ :=
              ih hone.stream (hlead.calm hcalm) hmore hfuel h
            refine ⟨m + 1, tree.added r.hidden ++ ts, ?_, by simp, ?_, .copy hid hgrows hmore'⟩
            · rw [Tree.leavesOf_append, Tree.leavesOf_added]
              exact hone.trans hmany
            · rwa [Nat.add_assoc, Nat.add_comm 1] at hcounts

/-- The elements of an alternative one after the other. -/
theorem parseElements_sound (predictive : g.Predictive starts follow)
    (hparse : ∀ r s t s', parse r s = .ok (t, s') → s.Leads s') (sound : Growing g parse)
    {after : List Kind} {es : List Element} (steered : Steered (g.tableOf starts) follow after es)
    (defined : ∀ e ∈ es, ∀ id, e.target = .rule id → ∃ r ∈ g.rules, r.id = id)
    {children children' : List Tree} {s s' : State} (hs : s.Stream) (hcalm : s.Calm)
    (h : parseElements g.ready separator parse (es.map (Element.ready g.facts)) children s =
      .ok (children', s'))
    (hclean : s'.problems = []) :
    ∃ ts, s.Consumes (Tree.leavesOf ts) s' ∧ children' = ts.reverse ++ children ∧
      Grows g (.elements es) ts := by
  induction es generalizing children s with
  | nil =>
    cases h
    exact ⟨[], .refl hs, rfl, .nil⟩
  | cons e es ih =>
    obtain ⟨hbounds, -, htarget, steered⟩ := steered
    have hinner : ∀ k, e.target = .token k → k ≠ .eof := by
      intro k hk
      rw [hk] at htarget
      exact htarget
    rw [List.map_cons, parseElements] at h
    split at h
    · cases h
    · rename_i hrun
      have hlead := parseElement_leads hparse hrun
      have hpassed := (parseElements_leads hparse h).problems hclean
      have hfuel := Nat.lt_add_right 1 (Nat.lt_succ_of_le hs.bounded)
      obtain ⟨m, ts, hone, rfl, hcounts, hgrows⟩ :=
        parseElement_sound predictive hparse sound hbounds hinner
        (defined e List.mem_cons_self) hs hcalm (fun _ _ => Nat.zero_le _) hfuel hrun hpassed
      obtain ⟨us, hrest, rfl, hgrows'⟩ := ih steered (fun x hx =>
        defined x (List.mem_cons_of_mem _ hx))
        hone.stream (hlead.calm hcalm) h
      refine ⟨ts ++ us, ?_, by simp, .cons (by simpa using hcounts) hgrows hgrows'⟩
      rw [Tree.leavesOf_append]
      exact hone.trans hrest

theorem chooseAlternative_mem {r : Rule} {k : Kind} {a : ReadyAlternative}
    (h : chooseAlternative (r.ready g.facts) k = some a) :
    ∃ es ∈ r.alternatives, a.elements = es.map (Element.ready g.facts) := by
  have hmem : a ∈ (r.ready g.facts).alternatives := by
    unfold chooseAlternative at h
    split at h
    · rename_i hfind
      cases h
      exact List.mem_of_find?_eq_some hfind
    · exact (List.mem_filter.1 (List.mem_of_getLast? h)).1
  obtain ⟨es, hes, rfl⟩ := List.mem_map.1 hmem
  exact ⟨es, hes, rfl⟩

/-- A rule that is parsed without problems gives one of the trees it grows. -/
theorem parseRule_grows (predictive : g.Predictive starts follow) (depth : Nat) :
    Growing g (parseRule g.ready separator depth) := by
  induction depth with
  | zero => exact fun r _ s t s' _ _ h => nomatch h
  | succ depth ih =>
    intro r hr s t s' hs hcalm h hclean
    rw [parseRule] at h
    split at h
    · cases h
      exact absurd ((State.leads_skip _).problems hclean) (State.report_problems_ne_nil hcalm _ _)
    · rename_i a ha
      obtain ⟨es, hes, helements⟩ := chooseAlternative_mem ha
      rw [helements] at h
      split at h
      · cases h
      · rename_i children s₁ hrun
        cases h
        obtain ⟨ts, hpass, rfl, hgrows⟩ := parseElements_sound predictive (fun _ _ _ _ =>
          parseRule_leads) ih
          (predictive.steered r hr es hes) (fun e he id hid => predictive.exists_rule hr hes he hid)
            hs hcalm hrun hclean
        simp only [List.append_nil, List.reverse_reverse]
        refine ⟨_, rfl, hpass, .rule hr hes hgrows fun t ht => ?_⟩
        obtain ⟨us, hus⟩ := List.head?_eq_some_iff.1 ht
        rw [hus] at hpass
        exact congrArg Token.place hpass.next_eq.symm

/-- A parser of rules whose outcomes without problems are derivations. -/
def Derivable (g : RuleSet) (parse : ReadyRule → State → Outcome (Option Tree)) : Prop :=
  ∀ r ∈ g.rules, ∀ s t s', s.Stream → s.Calm → parse (r.ready g.facts) s = .ok (t, s') →
    s'.problems = [] →
    ∃ tree ts, t = some tree ∧ s.Consumes ts s' ∧ tree.leaves = ts ∧
      Derives g (.rule r.id) (ts.map (·.kind))

/-- A rule that is parsed without problems derives the kinds of the tokens it passes, which are the
leaves of its tree. -/
theorem parseRule_sound (predictive : g.Predictive starts follow) (depth : Nat) :
    Derivable g (parseRule g.ready separator depth) := by
  intro r hr s t s' hs hcalm h hclean
  obtain ⟨tree, htree, hpass, hgrows⟩ := parseRule_grows predictive depth r hr s t s'
    hs hcalm h hclean
  have hderives := hgrows.derives
  rw [Tree.leavesOf_added] at hderives
  exact ⟨tree, tree.leaves, htree, hpass, rfl, hderives⟩

end Sound

end Formulary.Grammar
