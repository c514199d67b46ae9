import Mathlib.Data.List.Nodup
import Formulary.Proofs.Grammar.Soundness

/-!
# What is grown is parsed

By a predictive grammar the parser passes the tokens of all trees that a rule grows and gives these
trees, if what comes behind them can follow the rule: the kind in view tells which alternative was
taken and whether one more copy was, and a repeated element stops where the trees do. So it passes
whatever a rule derives. Only the depth can run out.
-/

namespace Formulary.Grammar

open Lexical (Kind Lexeme Token)

def comes (ts : List Token) : Kind := (ts.head?.map (·.kind)).getD .eof

structure State.At (s : State) (ts : List Token) : Prop where
  stream : s.Stream
  clean : s.Clean
  upcoming : s.upcoming = ts.map .token

namespace State.At

variable {s : State} {t : Token} {ts : List Token}

theorem next_eq (h : s.At (t :: ts)) : s.next.kind ≠ .eof ∧ s.next = t ∧
    s.rest = ts.map .token := by
  have hup := h.upcoming
  by_cases he : s.next.kind = .eof
  · rw [upcoming_of_eq he] at hup
    cases hup
  · rw [upcoming_of_ne he, List.map_cons] at hup
    injection hup with hhead hrest
    injection hhead with hhead
    exact ⟨he, hhead, hrest⟩

theorem kind_eq (h : s.At ts) : s.next.kind = comes ts := by
  cases ts with
  | nil =>
    have hup := h.upcoming
    by_cases he : s.next.kind = .eof
    · exact he
    · rw [upcoming_of_ne he] at hup
      cases hup
  | cons t ts => exact congrArg Token.kind h.next_eq.2.1

/-- Passing one of the tokens. -/
theorem advance (h : s.At (t :: ts)) : s.advance.At ts := by
  obtain ⟨front, hstrays, hrest, hlength, -⟩ := h.stream.upcoming_advance
  have hfront := hstrays.eq_nil (hrest.symm.trans h.next_eq.2.2)
  rw [hfront, h.clean.1] at hlength
  refine ⟨h.stream.advance, ⟨List.eq_nil_of_length_eq_zero hlength, ?_⟩, ?_⟩
  · show s.quiet - 1 = 0
    rw [h.clean.2]
  · rw [hfront, h.next_eq.2.2] at hrest
    exact hrest.symm

theorem calm (h : s.At ts) : s.Calm := fun _ => h.clean.2

theorem length_le (h : s.At ts) : ts.length ≤ s.bound := by
  have hbound := h.stream.bounded
  rwa [h.upcoming, List.length_map] at hbound

end State.At

section Complete

variable {g : RuleSet} {starts follow : Nat → List Kind} {separator : Nat}

/-- What can follow the copies of an element and the target of one of them. -/
def Element.Follows (table : Knowledge) (follow : Nat → List Kind) (e : Element)
    (k : Kind) : Prop :=
  (e.isFixed = true ∨ k ∉ (e.facts table).first) ∧
    match e.target with
    | .token t => t ≠ .eof
    | .rule id => k ∈ follow id ∧ (e.most = some 1 ∨ ∀ k ∈ (e.facts table).first, k ∈ follow id)

/-- The parser passes the tokens of some trees for a phrase, and gives these trees. -/
def Phrase.Regrows (g : RuleSet) (starts follow : Nat → List Kind) (separator : Nat)
    (ts : List Tree) : Phrase → Prop
  | .rule id => ∀ r ∈ g.rules, r.id = id → ∀ depth s rest t s', s.At (Tree.leavesOf ts ++ rest) →
    comes rest ∈ follow id → parseRule g.ready separator depth (r.ready g.facts) s = .ok (t, s') →
    t.map (Tree.added r.hidden) = some ts ∧ s'.At rest
  | .elements es => ∀ depth after s rest children children' s',
      Steered (g.tableOf starts) follow after es →
    (∀ e ∈ es, ∀ id, e.target = .rule id → ∃ q ∈ g.rules, q.id = id) →
      s.At (Tree.leavesOf ts ++ rest) →
    comes rest ∈ after →
    parseElements g.ready separator (parseRule g.ready separator depth)
      (es.map (Element.ready g.facts)) children s =
      .ok (children', s') → children' = ts.reverse ++ children ∧ s'.At rest
  | .copies e m => ∀ depth n fuel s rest children children' s',
      e.Follows (g.tableOf starts) follow (comes rest) →
    (∀ id, e.target = .rule id → ∃ q ∈ g.rules, q.id = id) → e.Counts (n + m) → m < fuel →
    s.At (Tree.leavesOf ts ++ rest) →
    parseElement g.ready separator (parseRule g.ready separator depth) (e.ready g.facts)
      fuel n children s =
      .ok (children', s') → children' = ts.reverse ++ children ∧ s'.At rest

/-- An element has at most as many copies as they have kinds. -/
theorem RuleSet.Predictive.copies_le (predictive : g.Predictive starts follow) {e : Element}
    {m : Nat} {ks : List Kind}
    (h : Derives g (.copies e m) ks) : m ≤ ks.length := by
  generalize hp : Phrase.copies e m = p at h
  induction h generalizing e m with
  | none =>
    cases hp
    exact Nat.zero_le _
  | token _ _ ih =>
    cases hp
    exact Nat.succ_le_succ (ih rfl)
  | @copy e id n ks ks' _ hd _ _ ih =>
    cases hp
    have hpos := List.length_pos_iff.2 (predictive.ne_nil hd)
    have hrest := ih rfl
    rw [List.length_append]
    omega
  | _ => cases hp

/-- The kind that comes where a sequence was derived is one of those ahead. -/
theorem comes_mem_ahead (predictive : g.Predictive starts follow) {after : List Kind}
    {es : List Element} {ts rest : List Token} (h : Derives g (.elements es) (ts.map (·.kind)))
    (hrest : comes rest ∈ after) :
    comes (ts ++ rest) ∈ ahead (g.tableOf starts) after es := by
  have hahead := predictive.head_mem_ahead h hrest
  cases ts with
  | nil => exact hahead
  | cons t ts => exact hahead

/-- An element is repeated while its copies come. -/
theorem goes_on {e : Element} {n : Nat} {k : Kind} (hmost : ∀ m, e.most = some m → n + 1 ≤ m)
    (hk : k ∈ (e.facts g.facts).first) :
    ¬(!(e.ready g.facts).element.allows n ||
      (e.ready g.facts).element.least ≤ n && !(e.ready g.facts).first.contains k) = true := by
  have hallows : e.allows n = true := by
    unfold Element.allows
    cases hm : e.most with
    | none => rfl
    | some m => exact decide_eq_true (hmost m hm)
  simp [Element.ready, hallows, hk]

/-- An element stops where something else comes, or where its bounds tell. -/
theorem stops (predictive : g.Predictive starts follow) {e : Element} {n : Nat} {k : Kind}
    (hcounts : e.Counts n) (hfollow : e.isFixed = true ∨ k ∉ (e.facts (g.tableOf starts)).first) :
    (!(e.ready g.facts).element.allows n ||
      (e.ready g.facts).element.least ≤ n && !(e.ready g.facts).first.contains k) = true := by
  rcases hfollow with hfixed | hk
  · have hmost : e.most = some e.least := by simpa [Element.isFixed] using hfixed
    have heq : n = e.least := Nat.le_antisymm (hcounts.2 _ hmost) hcounts.1
    simp [Element.ready, Element.allows, hmost, heq]
  · have hnot : k ∉ (e.facts g.facts).first := fun h =>
      hk ((e.facts_le predictive.facts_le_table).1 h)
    have hleast := hcounts.1
    simp [Element.ready, hleast, hnot]

theorem regrows_none (predictive : g.Predictive starts follow) {e : Element} :
    (Phrase.copies e 0).Regrows g starts follow separator [] := by
  intro depth n fuel s rest children children' s' hfollow _ hcounts hfuel hat h
  obtain ⟨fuel, rfl⟩ := Nat.exists_eq_add_of_lt hfuel
  rw [Nat.zero_add, parseElement, if_pos] at h
  · cases h
    exact ⟨rfl, hat⟩
  · rw [hat.kind_eq]
    exact stops predictive hcounts hfollow.1

theorem regrows_token {e : Element} {t : Token} {m : Nat} {ts : List Tree}
    (he : e.target = .token t.kind)
    (ih : (Phrase.copies e m).Regrows g starts follow separator ts) :
    (Phrase.copies e (m + 1)).Regrows g starts follow separator (.leaf t :: ts) := by
  intro depth n fuel s rest children children' s' hfollow hdefined hcounts hfuel hat h
  obtain ⟨fuel, rfl⟩ := Nat.exists_eq_add_of_lt hfuel
  have hnext : s.next = t := hat.next_eq.2.1
  have hgo := goes_on (g := g) (e := e) (n := n) (k := s.next.kind)
    (fun b hb => by have := hcounts.2 b hb; omega)
    (by simp [Element.facts, he, hnext])
  have htarget : (e.ready g.facts).element.target = .token t.kind := he
  rw [parseElement, if_neg hgo, htarget] at h
  simp only [hnext, beq_self_eq_true, if_true] at h
  obtain ⟨hchildren, hat'⟩ := ih depth (n + 1) _ _ rest _ _ _ hfollow hdefined
    (by rwa [Nat.add_assoc, Nat.add_comm 1]) (by omega) hat.advance h
  exact ⟨by rw [hchildren]; simp, hat'⟩

/-- What comes behind a copy of a rule can follow the rule: another copy, or what follows them
all. -/
theorem comes_mem_follow (predictive : g.Predictive starts follow) {e : Element} {id m n : Nat}
    {us rest : List Token}
    (he : e.target = .rule id) (hd : Derives g (.copies e m) (us.map (·.kind)))
    (hcounts : e.Counts (n + (m + 1)))
    (hfollow : e.Follows (g.tableOf starts) follow (comes rest)) :
    comes (us ++ rest) ∈ follow id := by
  have htarget := hfollow.2
  rw [he] at htarget
  cases us with
  | nil => exact htarget.1
  | cons u us =>
    rcases (hd.covered predictive.distinct : Phrase.Covered g.facts _ (.copies e m)) with
      ⟨-, hnil⟩ | hfirst
    · cases hnil
    · rcases htarget.2 with hone | hmany
      · -- Two copies are too many for an element that stands once at most.
        have hle := hcounts.2 1 hone
        have hpos : 0 < m := by
          rcases Nat.eq_zero_or_pos m with rfl | hpos
          · cases hd
          · exact hpos
        omega
      · exact hmany u.kind ((e.facts_le predictive.facts_le_table).1 hfirst)

/-- Where a rule was derived, the kind in view starts an element with this rule. -/
theorem next_mem_first (predictive : g.Predictive starts follow) {e : Element} {id : Nat}
    {us rest : List Token}
    {s : State} (he : e.target = .rule id) (hd : Derives g (.rule id) (us.map (·.kind)))
    (hat : s.At (us ++ rest)) :
    s.next.kind ∈ (e.facts g.facts).first := by
  have hcovers : (g.facts.get id).Covers (us.map (·.kind)) := hd.covered predictive.distinct
  obtain ⟨u, us, rfl⟩ := List.exists_cons_of_ne_nil fun hnil =>
    predictive.ne_nil hd (congrArg (List.map _) hnil)
  have hu : u.kind ∈ (g.facts.get id).first := hcovers
  rw [hat.next_eq.2.1]
  simpa [Element.facts, he] using hu

/-- One copy of a rule, and then the others. -/
theorem regrows_copy (predictive : g.Predictive starts follow) {e : Element} {id m : Nat}
    {ts us : List Tree}
    (he : e.target = .rule id) (hg : Grows g (.rule id) ts) (hg' : Grows g (.copies e m) us)
    (ih : (Phrase.rule id).Regrows g starts follow separator ts)
    (ih' : (Phrase.copies e m).Regrows g starts follow separator us) :
    (Phrase.copies e (m + 1)).Regrows g starts follow separator (ts ++ us) := by
  intro depth n fuel s rest children children' s' hfollow hdefined hcounts hfuel hat h
  obtain ⟨fuel, rfl⟩ := Nat.exists_eq_add_of_lt hfuel
  obtain ⟨r, hr, rfl⟩ := hdefined id he
  rw [Tree.leavesOf_append, List.append_assoc] at hat
  have hfirst := next_mem_first predictive he hg.derives hat
  have hgo := goes_on (g := g) (e := e) (n := n) (k := s.next.kind)
    (fun b hb => by have := hcounts.2 b hb; omega) hfirst
  have htarget : (e.ready g.facts).element.target = .rule r.id := he
  rw [parseElement, if_neg hgo, htarget] at h
  simp only [rule?_ready predictive.distinct hr] at h
  have hpass := fun t s' => ih r hr rfl depth s (Tree.leavesOf us ++ rest) t s' hat
    (comes_mem_follow predictive he hg'.derives hcounts hfollow)
  split at h
  · cases h
  · rename_i hrun
    cases (hpass _ _ hrun).1
  · rename_i tree s₁ hrun
    obtain ⟨hadded, hat₁⟩ := hpass _ _ hrun
    obtain ⟨tree', htree, hone, hgrows⟩ :=
      parseRule_grows predictive depth r hr _ _ _ hat.stream hat.calm hrun hat₁.clean.1
    cases htree
    have hleaves := predictive.leaves_ne_nil hgrows
    rw [Tree.leavesOf_added] at hleaves
    rw [if_neg (by simpa using hone.offset_ne hat.stream hleaves)] at h
    obtain ⟨hchildren, hat'⟩ := ih' depth (n + 1) _ _ rest _ _ _ hfollow hdefined
      (by rwa [Nat.add_assoc, Nat.add_comm 1]) (by omega) hat₁ h
    have hts : tree.added r.hidden = ts := Option.some_inj.1 hadded
    replace hchildren : children' = us.reverse ++ ((tree.added r.hidden).reverse ++ children) := by
      rw [hchildren]
      cases tree <;> rfl
    exact ⟨by rw [hchildren, hts]; simp, hat'⟩

/-- What is ahead of an element can follow its copies. -/
theorem Steered.follows {table : Knowledge} {follow : Nat → List Kind}
    {after : List Kind} {e : Element}
    {es : List Element} {k : Kind} (h : Steered table follow after (e :: es))
    (hk : k ∈ ahead table after es) :
    e.Follows table follow k := by
  obtain ⟨-, hstop, htarget, -⟩ := h
  refine ⟨hstop.imp id fun h => h k hk, ?_⟩
  cases htar : e.target with
  | token t =>
    rw [htar] at htarget
    exact htarget
  | rule id =>
    rw [htar] at htarget
    exact ⟨htarget.1 k hk, htarget.2⟩

/-- The loop over an element has a round for each of its copies. -/
theorem RuleSet.Predictive.copies_lt (predictive : g.Predictive starts follow)
    {e : Element} {m : Nat}
    {us rest : List Token} {s : State} (h : Derives g (.copies e m) (us.map (·.kind)))
    (hat : s.At (us ++ rest)) :
    m < s.bound + 2 := by
  have hle := predictive.copies_le h
  have hbound := hat.length_le
  rw [List.length_append] at hbound
  rw [List.length_map] at hle
  omega

/-- The first element of a sequence, and then the others. -/
theorem regrows_cons (predictive : g.Predictive starts follow) {e : Element}
    {es : List Element} {m : Nat}
    {ts us : List Tree} (counts : e.Counts m) (hg : Grows g (.copies e m) ts)
    (hg' : Grows g (.elements es) us)
    (ih : (Phrase.copies e m).Regrows g starts follow separator ts)
    (ih' : (Phrase.elements es).Regrows g starts follow separator us) :
    (Phrase.elements (e :: es)).Regrows g starts follow separator (ts ++ us) := by
  intro depth after s rest children children' s' steered hdefined hat hrest h
  rw [Tree.leavesOf_append, List.append_assoc] at hat
  have hfollow := steered.follows (comes_mem_ahead predictive hg'.derives hrest)
  have hfuel := predictive.copies_lt hg.derives hat
  obtain ⟨-, -, -, steered⟩ := steered
  rw [List.map_cons, parseElements] at h
  split at h
  · cases h
  · rename_i hrun
    obtain ⟨rfl, hone⟩ := ih depth 0 _ s (Tree.leavesOf us ++ rest) _ _ _ hfollow
      (hdefined e List.mem_cons_self)
      (by rwa [Nat.zero_add]) hfuel hat hrun
    obtain ⟨rfl, hat'⟩ := ih' depth after _ rest _ _ _ steered (fun x hx =>
      hdefined x (List.mem_cons_of_mem _ hx)) hone
      hrest h
    exact ⟨by simp, hat'⟩

/-- The kind in view chooses the alternative that was derived. -/
theorem chooseAlternative_derived (predictive : g.Predictive starts follow) {r : Rule}
    (hr : r ∈ g.rules) {es : List Element} (hes : es ∈ r.alternatives) {k : Kind}
    (hk : k ∈ (sequenceFacts g.facts es).first) :
    ∃ a, chooseAlternative (r.ready g.facts) k = some a ∧
      a.elements = es.map (Element.ready g.facts) := by
  have hwithin : ∀ es, k ∈ (sequenceFacts g.facts es).first →
      k ∈ (sequenceFacts (g.tableOf starts) es).first :=
    fun es h => (sequenceFacts_le predictive.facts_le_table es).1 h
  have hfind : ∀ alternatives : List (List Element), es ∈ alternatives →
      alternatives.Pairwise (fun a b => ∀ k ∈ (sequenceFacts (g.tableOf starts) a).first,
        k ∉ (sequenceFacts (g.tableOf starts) b).first) →
      alternatives.find? (fun es => (sequenceFacts g.facts es).first.contains k) = some es := by
    intro alternatives
    induction alternatives with
    | nil => exact fun h => nomatch h
    | cons x alternatives ih =>
      intro hmem hapart
      obtain ⟨hx, hapart⟩ := List.pairwise_cons.1 hapart
      rw [List.find?_cons]
      rcases List.mem_cons.1 hmem with rfl | hmem
      · simp [hk]
      · have hnot : k ∉ (sequenceFacts g.facts x).first := fun h =>
          hx es hmem k (hwithin x h) (hwithin es hk)
        rw [List.contains_eq_mem, decide_eq_false hnot]
        exact ih hmem hapart
  unfold chooseAlternative Rule.ready
  rw [List.find?_map]
  simp only [Function.comp_def, hfind r.alternatives hes (predictive.apart r hr), Option.map_some]
  exact ⟨_, rfl, rfl⟩

/-- Where an alternative was derived it is chosen. -/
theorem chooseAlternative_at (predictive : g.Predictive starts follow) {r : Rule} (hr : r ∈ g.rules)
    {es : List Element} (hes : es ∈ r.alternatives) {us rest : List Token} {s : State}
    (hd : Derives g (.elements es) (us.map (·.kind))) (hat : s.At (us ++ rest)) :
    ∃ a, chooseAlternative (r.ready g.facts) s.next.kind = some a ∧
      a.elements = es.map (Element.ready g.facts) := by
  refine chooseAlternative_derived predictive hr hes ?_
  have hcovers : (sequenceFacts g.facts es).Covers (us.map (·.kind)) :=
    hd.covered predictive.distinct
  obtain ⟨u, us, rfl⟩ := List.exists_cons_of_ne_nil fun hnil =>
    predictive.ne_nil (.rule hr hes hd) (congrArg (List.map _) hnil)
  rw [hat.next_eq.2.1]
  exact hcovers

/-- The alternative of a rule that was taken. -/
theorem regrows_rule (predictive : g.Predictive starts follow) {r : Rule} (hr : r ∈ g.rules)
    {es : List Element} (hes : es ∈ r.alternatives) {place : Lexical.Place} {ts : List Tree}
    (hg : Grows g (.elements es) ts) (hplace : ∀ t ∈ (Tree.leavesOf ts).head?, t.place = place)
    (ih : (Phrase.elements es).Regrows g starts follow separator ts) :
    (Phrase.rule r.id).Regrows g starts follow separator
      ((Tree.node r.id r.name place ts).added r.hidden) := by
  intro q hq hid depth s rest t s' hat hrest h
  obtain rfl : q = r := List.inj_on_of_nodup_map predictive.distinct hq hr hid
  have hne := predictive.leaves_ne_nil (.rule hr hes hg hplace)
  rw [Tree.leavesOf_added, Tree.leaves] at hne hat
  obtain ⟨u, us, hus⟩ := List.exists_cons_of_ne_nil hne
  have hnext : s.next = u := by
    rw [hus] at hat
    exact hat.next_eq.2.1
  cases depth with
  | zero => cases h
  | succ depth =>
    obtain ⟨a, hchoose, helements⟩ := chooseAlternative_at predictive hr hes hg.derives hat
    rw [parseRule, hchoose] at h
    simp only [helements] at h
    split at h
    · cases h
    · rename_i hrun
      cases h
      obtain ⟨rfl, hat'⟩ := ih depth _ s rest _ _ _ (predictive.steered q hr es hes)
        (fun e he id hid => predictive.exists_rule hr hes he hid) hat hrest hrun
      have hstart : s.next.place = place := by
        rw [hnext]
        exact hplace u (by rw [hus]; rfl)
      refine ⟨?_, hat'⟩
      rw [hstart, List.append_nil, List.reverse_reverse]
      rfl

/-- The parser gives whatever is grown. -/
theorem Grows.regrows (predictive : g.Predictive starts follow) {p : Phrase} {ts : List Tree}
    (h : Grows g p ts) :
    p.Regrows g starts follow separator ts := by
  induction h with
  | rule hr hes hg hplace ih => exact regrows_rule predictive hr hes hg hplace ih
  | nil =>
    intro depth after s rest children children' s' _ _ hat _ h
    cases h
    exact ⟨rfl, hat⟩
  | cons counts hg hg' ih ih' => exact regrows_cons predictive counts hg hg' ih ih'
  | none => exact regrows_none predictive
  | token he _ ih => exact regrows_token he ih
  | copy he hg hg' ih ih' => exact regrows_copy predictive he hg hg' ih ih'

/-- The parser passes whatever is derived. -/
theorem Derives.passes (predictive : g.Predictive starts follow) {id : Nat} {ks : List Kind}
    (h : Derives g (.rule id) ks) : ∀ r ∈ g.rules, r.id = id → ∀ depth s ts rest t s',
    s.At (ts ++ rest) →
      ts.map (·.kind) = ks → comes rest ∈ follow id →
      parseRule g.ready separator depth (r.ready g.facts) s = .ok (t, s') → t.isSome = true ∧
        s'.At rest := by
  intro r hr hid depth s ts rest t s' hat hts hrest hrun
  obtain ⟨trees, hgrows, rfl⟩ := h.grows hts
  obtain ⟨htrees, hat'⟩ := hgrows.regrows predictive r hr hid depth s rest t s' hat hrest hrun
  refine ⟨?_, hat'⟩
  rw [← Option.isSome_map, htrees]
  rfl

end Complete

end Formulary.Grammar
