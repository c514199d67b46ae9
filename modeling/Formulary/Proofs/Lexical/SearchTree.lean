import Mathlib.Data.List.Basic
import Mathlib.Data.List.Induction
import Formulary.Lexical.Automaton

/-!
# Search trees

What an entry does to a search tree. Every state but the root is led to by one character from one
other state, so a string leads to a state of its own or to none. Adding an entry makes states where
there are none and keeps all links, and of the strings that lead to the states it ends in exactly
those are spelled by the entry: they get its kind, and every other string keeps its own.
-/

namespace Formulary

open Text (Glyph foldCode caseVariants)

namespace Lexical

/-- Halving finds where a test that stays true becomes true. -/
theorem searchBetween_spec {test : Nat → Bool} {i j : Nat} (hij : i ≤ j)
    (stays : ∀ m n, m ≤ n → n < j → test m = true → test n = true) :
    i ≤ searchBetween test i j ∧ searchBetween test i j ≤ j ∧
      (∀ m, i ≤ m → m < searchBetween test i j → test m = false) ∧
        ∀ m, searchBetween test i j ≤ m → m < j → test m = true := by
  fun_induction searchBetween test i j with
  | case1 i j hlt middle htest ih =>
    obtain ⟨hlow, hhigh, hbelow, habove⟩ := ih (by omega) fun m n hm hn => stays m n hm (by omega)
    refine ⟨hlow, by omega, hbelow, fun m hm hmj => ?_⟩
    rcases Nat.lt_or_ge m middle with h | h
    · exact habove m hm h
    · exact stays middle m h hmj htest
  | case2 i j hlt middle htest ih =>
    have htest : test middle = false := by simpa using htest
    obtain ⟨hlow, hhigh, hbelow, habove⟩ := ih (by omega) stays
    refine ⟨by omega, hhigh, fun m hm hmr => ?_, habove⟩
    rcases Nat.lt_or_ge middle m with h | h
    · exact hbelow m h hmr
    · by_contra hm
      rw [Bool.not_eq_false] at hm
      rw [stays m middle h (by omega) hm] at htest
      cases htest
  | case3 i j hge =>
    exact ⟨Nat.le_refl _, hij, fun m hm h => absurd h (by omega), fun m hm h => absurd h (by omega)⟩

namespace TreeState

variable {s : TreeState} {c d j k : Nat}

/-- The list of links is in the order of the characters, each of which has one. -/
def Sorted (s : TreeState) : Prop := s.other.Pairwise fun x y => x.1 < y.1

/-- The links before the place of a character are for smaller ones, and those behind it are not. -/
theorem Sorted.position_spec (h : s.Sorted) (c : Nat) :
    (∀ x ∈ s.other.take (s.position c), x.1 < c) ∧ ∀ x ∈ s.other.drop (s.position c), c ≤ x.1 := by
  have htest : ∀ i (hi : i < s.other.length),
      s.other[i]?.any (c ≤ ·.1) = decide (c ≤ s.other[i].1) := by
    intro i hi
    rw [List.getElem?_eq_getElem hi]
    rfl
  have stays : ∀ m n, m ≤ n → n < s.other.length → s.other[m]?.any (c ≤ ·.1) = true →
      s.other[n]?.any (c ≤ ·.1) = true := by
    intro m n hmn hn hm
    rw [htest m (by omega), decide_eq_true_eq] at hm
    rw [htest n hn, decide_eq_true_eq]
    rcases Nat.eq_or_lt_of_le hmn with rfl | hlt
    · exact hm
    · have := List.pairwise_iff_getElem.1 h m n (by omega) hn hlt
      omega
  obtain ⟨-, -, hbelow, habove⟩ := searchBetween_spec (Nat.zero_le s.other.length) stays
  constructor
  · intro x hx
    obtain ⟨m, hm, rfl⟩ := List.mem_take_iff_getElem.1 hx
    have := hbelow m (Nat.zero_le m) (by unfold position at hm; omega)
    rw [htest m (by omega), decide_eq_false_iff_not] at this
    omega
  · intro x hx
    obtain ⟨m, hm, rfl⟩ := List.mem_drop_iff_getElem.1 hx
    have := habove (s.position c + m) (Nat.le_add_right _ _) (by omega)
    rwa [htest _ (by omega), decide_eq_true_eq] at this

/-- A character leads to the state of its link. -/
theorem Sorted.step_eq_some_iff (h : s.Sorted) : s.step c = some j ↔
    if h : c < 0x80 then s.ascii[c] = some j else (c, j) ∈ s.other := by
  unfold step
  split
  · rfl
  · obtain ⟨hbefore, hbehind⟩ := h.position_spec c
    rw [← List.head?_drop]
    have hmem : (c, j) ∈ s.other ↔ (c, j) ∈ s.other.drop (s.position c) := by
      refine ⟨fun hmem => ?_, List.mem_of_mem_drop⟩
      rw [← List.take_append_drop (s.position c) s.other] at hmem
      exact (List.mem_append.1 hmem).resolve_left fun hmem => Nat.lt_irrefl c (hbefore _ hmem)
    rw [hmem]
    have hsorted : (s.other.drop (s.position c)).Pairwise fun x y => x.1 < y.1 := h.drop
    cases hdrop : s.other.drop (s.position c) with
    | nil => simp
    | cons x rest =>
      rw [hdrop] at hsorted hbehind
      have hrest : (c, j) ∉ rest := by
        intro hmem
        have hlt := (List.pairwise_cons.1 hsorted).1 _ hmem
        have hle := hbehind x List.mem_cons_self
        omega
      rw [List.head?_cons, List.mem_cons, or_iff_left hrest, Prod.ext_iff, Option.filter]
      by_cases hx : x.1 = c
      · simp [hx, eq_comm]
      · simp [hx, Ne.symm hx]

/-- Behind the place of a character that leads nowhere the links are for larger ones. -/
theorem Sorted.lt_of_mem_drop (h : s.Sorted) (hc : s.step c = none) (hlarge : ¬c < 0x80) :
    ∀ x ∈ s.other.drop (s.position c), c < x.1 := by
  intro x hx
  refine Nat.lt_of_le_of_ne ((h.position_spec c).2 x hx) fun heq => ?_
  have hstep : s.step c = some x.2 := by
    rw [h.step_eq_some_iff, dif_neg hlarge, heq]
    exact List.mem_of_mem_drop hx
  rw [hc] at hstep
  cases hstep

theorem Sorted.link (h : s.Sorted) (hc : s.step c = none) (j : Nat) : (s.link c j).Sorted := by
  unfold TreeState.link
  split
  · exact h
  · rename_i hlarge
    have hbefore := (h.position_spec c).1
    have hbehind := h.lt_of_mem_drop hc hlarge
    refine List.pairwise_append.2 ⟨h.take, List.pairwise_cons.2 ⟨hbehind, h.drop⟩,
      fun x hx y hy => ?_⟩
    rcases List.mem_cons.1 hy with rfl | hy
    · exact hbefore x hx
    · exact Nat.lt_trans (hbefore x hx) (hbehind y hy)

/-- A new link changes the way of its own character alone. -/
theorem Sorted.step_link (h : s.Sorted) (hc : s.step c = none) (j d : Nat) :
    (s.link c j).step d = if d = c then some j else s.step d := by
  have hnone : ∀ k, s.step c ≠ some k := fun k hk => by rw [hc] at hk; cases hk
  refine Option.ext fun k => ?_
  rw [(h.link hc j).step_eq_some_iff]
  by_cases hsmall : c < 0x80
  · simp only [TreeState.link, dif_pos hsmall]
    by_cases hd : d < 0x80
    · rw [dif_pos hd, Vector.getElem_set]
      by_cases hdc : d = c
      · rw [if_pos hdc.symm, if_pos hdc]
      · rw [if_neg (Ne.symm hdc), if_neg hdc, h.step_eq_some_iff, dif_pos hd]
    · have hne : d ≠ c := by omega
      rw [dif_neg hd, if_neg hne, h.step_eq_some_iff, dif_neg hd]
  · simp only [TreeState.link, dif_neg hsmall]
    by_cases hd : d < 0x80
    · have hne : d ≠ c := by omega
      rw [dif_pos hd, if_neg hne, h.step_eq_some_iff, dif_pos hd]
    · rw [dif_neg hd, List.mem_append, List.mem_cons, or_left_comm, ← List.mem_append,
        List.take_append_drop]
      have hstep : (d, k) ∈ s.other ↔ s.step d = some k := by rw [h.step_eq_some_iff, dif_neg hd]
      rw [hstep, Prod.ext_iff]
      by_cases hdc : d = c
      · simp [hdc, hnone, eq_comm]
      · simp [hdc]

theorem sorted_fresh : fresh.Sorted := .nil

theorem step_fresh (c : Nat) : fresh.step c = none := by
  unfold step
  split
  · exact Vector.getElem_replicate _
  · rfl

theorem kind_link (s : TreeState) (c j : Nat) : (s.link c j).kind = s.kind := by
  unfold link
  split <;> rfl

end TreeState

namespace Automaton

variable {a b : Automaton} {i j c : Nat}

/-- A tree in which every state but the root is led to by one character from one state. -/
structure Sound (a : Automaton) : Prop where
  sorted : ∀ s ∈ a.states, s.Sorted
  rooted : 0 < a.states.length
  inside : ∀ {i c j}, a.step i c = some j → j < a.states.length
  unique : ∀ {i c i' c' j}, a.step i c = some j → a.step i' c' = some j → i = i' ∧ c = c'
  rootless : ∀ {i c}, a.step i c ≠ some 0

/-- A tree that keeps all links and kinds, and has new links to new states only. -/
structure Extends (a b : Automaton) : Prop where
  length_le : a.states.length ≤ b.states.length
  step : ∀ {i c j}, a.step i c = some j → b.step i c = some j
  new : ∀ {i c j}, b.step i c = some j → a.step i c = some j ∨ a.states.length ≤ j
  kind : ∀ i, b.kind i = a.kind i

theorem Extends.refl (a : Automaton) : a.Extends a := ⟨Nat.le_refl _, id, .inl, fun _ => rfl⟩

theorem Extends.trans {d : Automaton} (h : a.Extends b) (h' : b.Extends d) : a.Extends d where
  length_le := Nat.le_trans h.length_le h'.length_le
  step hs := h'.step (h.step hs)
  new hs := (h'.new hs).elim h.new fun hle => .inr (Nat.le_trans h.length_le hle)
  kind i := (h'.kind i).trans (h.kind i)

theorem length_grow (a : Automaton) (i c : Nat) :
    (a.grow i c).states.length = a.states.length + 1 := by
  simp [grow]

theorem getElem?_grow (a : Automaton) (i c k : Nat) : (a.grow i c).states[k]? =
    if k = a.states.length then some .fresh
    else a.states[k]?.map fun s => if i = k then s.link c a.states.length else s := by
  have hlength : (a.states.modify i (·.link c a.states.length)).length = a.states.length :=
    List.length_modify ..
  unfold grow
  rcases Nat.lt_trichotomy k a.states.length with hk | rfl | hk
  · rw [List.getElem?_append_left (by rwa [hlength]), List.getElem?_modify,
      if_neg (Nat.ne_of_lt hk)]
    rfl
  · rw [List.getElem?_append_right (Nat.le_of_eq hlength), hlength]
    simp
  · have hout : [TreeState.fresh].length ≤ k -
      (a.states.modify i (·.link c a.states.length)).length := by
      rw [List.length_singleton]
      omega
    rw [List.getElem?_append_right (by omega), if_neg (by omega), List.getElem?_eq_none hout,
      List.getElem?_eq_none (Nat.le_of_lt hk)]
    rfl

theorem kind_grow (a : Automaton) (i c k : Nat) : (a.grow i c).kind k = a.kind k := by
  unfold kind
  rw [getElem?_grow]
  split
  · rename_i hk
    rw [hk, List.getElem?_eq_none (Nat.le_refl _)]
    rfl
  · rw [Option.map_map]
    congr 2
    funext s
    dsimp only [Function.comp]
    split
    · exact s.kind_link c _
    · rfl

section Grow

variable (h : a.Sound) (hi : i < a.states.length) (hc : a.step i c = none)
include h hi hc

theorem step_grow (k d : Nat) :
    (a.grow i c).step k d = if k = i ∧ d = c then some a.states.length else a.step k d := by
  unfold step
  rw [getElem?_grow]
  by_cases hk : k = a.states.length
  · subst hk
    rw [if_pos rfl, if_neg (by omega), List.getElem?_eq_none (Nat.le_refl _)]
    exact TreeState.step_fresh d
  · rw [if_neg hk]
    by_cases hki : i = k
    · subst hki
      have hnone : a.states[i].step c = none := by
        rw [step, List.getElem?_eq_getElem hi] at hc
        exact hc
      rw [List.getElem?_eq_getElem hi]
      simpa using (h.sorted _ (List.getElem_mem hi)).step_link hnone a.states.length d
    · simp [hki, Ne.symm hki]

theorem extends_grow : a.Extends (a.grow i c) where
  length_le := by
    rw [length_grow]
    exact Nat.le_succ _
  step {k d j} hs := by
    rw [step_grow h hi hc, if_neg, hs]
    rintro ⟨rfl, rfl⟩
    rw [hc] at hs
    cases hs
  new {k d j} hs := by
    rw [step_grow h hi hc] at hs
    split at hs
    · cases hs
      exact .inr (Nat.le_refl _)
    · exact .inl hs
  kind := kind_grow a i c

theorem sound_grow : (a.grow i c).Sound where
  sorted s hs := by
    obtain ⟨k, hk⟩ := List.mem_iff_getElem?.1 hs
    rw [getElem?_grow] at hk
    split at hk
    · cases hk
      exact TreeState.sorted_fresh
    · obtain ⟨t, ht, rfl⟩ := Option.map_eq_some_iff.1 hk
      have hsorted := h.sorted t (List.mem_of_getElem? ht)
      split
      · rename_i hik
        subst hik
        rw [step, ht] at hc
        exact hsorted.link hc _
      · exact hsorted
  rooted := by
    rw [length_grow]
    exact Nat.succ_pos _
  inside {k d j} hs := by
    rw [length_grow]
    rw [step_grow h hi hc] at hs
    split at hs
    · cases hs
      exact Nat.lt_succ_self _
    · exact Nat.lt_succ_of_lt (h.inside hs)
  unique {k d k' d' j} hs hs' := by
    rw [step_grow h hi hc] at hs hs'
    split at hs <;> split at hs'
    · rename_i heq heq'
      exact ⟨heq.1.trans heq'.1.symm, heq.2.trans heq'.2.symm⟩
    · cases hs
      exact absurd (h.inside hs') (Nat.lt_irrefl _)
    · cases hs'
      exact absurd (h.inside hs) (Nat.lt_irrefl _)
    · exact h.unique hs hs'
  rootless {k d} hs := by
    rw [step_grow h hi hc] at hs
    split at hs
    · have hzero : a.states.length = 0 := Option.some.inj hs
      exact absurd h.rooted (by omega)
    · exact h.rootless hs

end Grow

theorem ensure_spec (h : a.Sound) (hi : i < a.states.length) (c : Nat) :
    a.Extends (a.ensure i c).1 ∧ (a.ensure i c).1.Sound ∧
      (a.ensure i c).1.step i c = some (a.ensure i c).2 := by
  unfold ensure
  cases hc : a.step i c with
  | some j => exact ⟨.refl a, h, hc⟩
  | none =>
    exact ⟨extends_grow h hi hc, sound_grow h hi hc, by rw [step_grow h hi hc, if_pos ⟨rfl, rfl⟩]⟩

theorem mem_appendUnique {l : List Nat} {i k : Nat} : k ∈ appendUnique l i ↔ k ∈ l ∨ k = i := by
  unfold appendUnique
  split
  · rename_i hmem
    exact ⟨.inl, fun h => h.elim id fun h => h ▸ List.contains_iff_mem.1 hmem⟩
  · rw [List.mem_append, List.mem_singleton]

/-- A larger tree, and the states that these characters lead to from these states, besides some
others. -/
structure Spreads (a : Automaton) (next : List Nat) (pairs : Nat → Nat → Prop)
    (r : Automaton × List Nat) : Prop where
  extension : a.Extends r.1
  sound : r.1.Sound
  keeps : next ⊆ r.2
  found : ∀ i c, pairs i c → ∃ j ∈ r.2, r.1.step i c = some j
  only : ∀ j ∈ r.2, j ∈ next ∨ ∃ i c, pairs i c ∧ r.1.step i c = some j

theorem Spreads.trans {next : List Nat} {p q : Nat → Nat → Prop} {r r' : Automaton × List Nat}
    (h : Spreads a next p r) (h' : Spreads r.1 r.2 q r') :
    Spreads a next (fun i c => p i c ∨ q i c) r' where
  extension := h.extension.trans h'.extension
  sound := h'.sound
  keeps := List.Subset.trans h.keeps h'.keeps
  found i c hpairs := by
    rcases hpairs with hp | hq
    · obtain ⟨j, hj, hstep⟩ := h.found i c hp
      exact ⟨j, h'.keeps hj, h'.extension.step hstep⟩
    · exact h'.found i c hq
  only j hj := by
    rcases h'.only j hj with hj | ⟨i, c, hq, hstep⟩
    · rcases h.only j hj with hj | ⟨i, c, hp, hstep⟩
      · exact .inl hj
      · exact .inr ⟨i, c, .inl hp, h'.extension.step hstep⟩
    · exact .inr ⟨i, c, .inr hq, hstep⟩

theorem Spreads.congr {next : List Nat} {p q : Nat → Nat → Prop} {r : Automaton × List Nat}
    (h : Spreads a next p r)
    (hpq : ∀ i c, p i c ↔ q i c) : Spreads a next q r := by
  have : p = q := funext fun i => funext fun c => propext (hpq i c)
  exact this ▸ h

theorem spreads_nothing (h : a.Sound) (next : List Nat) :
    Spreads a next (fun _ _ => False) (a, next) :=
  ⟨.refl a, h, fun _ => id, nofun, fun _ => .inl⟩

theorem spreads_ensure (h : a.Sound) (hi : i < a.states.length) (c : Nat) (next : List Nat) :
    Spreads a next (fun k d => k = i ∧ d = c)
      ((a.ensure i c).1, appendUnique next (a.ensure i c).2) where
  extension := (ensure_spec h hi c).1
  sound := (ensure_spec h hi c).2.1
  keeps _ hk := mem_appendUnique.2 (.inl hk)
  found k d hpair := by
    obtain ⟨rfl, rfl⟩ := hpair
    exact ⟨_, mem_appendUnique.2 (.inr rfl), (ensure_spec h hi d).2.2⟩
  only k hk := by
    refine (mem_appendUnique.1 hk).imp_right fun hk => ⟨i, c, ⟨rfl, rfl⟩, ?_⟩
    rw [hk]
    exact (ensure_spec h hi c).2.2

theorem spreads_spread (cs : List Nat) (h : a.Sound) (hi : i < a.states.length) (next : List Nat) :
    Spreads a next (fun k d => k = i ∧ d ∈ cs) (spread i cs (a, next)) := by
  induction cs generalizing a next with
  | nil => exact (spreads_nothing h next).congr fun k d => by simp
  | cons c cs ih =>
    have hfirst := spreads_ensure h hi c next
    have hrest := ih hfirst.sound (Nat.lt_of_lt_of_le hi hfirst.extension.length_le)
      (appendUnique next (a.ensure i c).2)
    exact (hfirst.trans hrest).congr fun k d => by rw [List.mem_cons, ← and_or_left]

theorem spreads_advance (cs : List Nat) {is : List Nat} (h : a.Sound)
    (his : ∀ i ∈ is, i < a.states.length)
    (next : List Nat) : Spreads a next (fun k d => k ∈ is ∧ d ∈ cs) (advance cs is (a, next)) := by
  induction is generalizing a next with
  | nil => exact (spreads_nothing h next).congr fun k d => by simp
  | cons i is ih =>
    obtain ⟨hi, his⟩ := List.forall_mem_cons.1 his
    have hfirst := spreads_spread cs h hi next
    have hrest := ih hfirst.sound (fun k hk =>
      Nat.lt_of_lt_of_le (his k hk) hfirst.extension.length_le)
      (spread i cs (a, next)).2
    exact (hfirst.trans hrest).congr fun k d => by rw [List.mem_cons, ← or_and_right]

section Walk

/-- The state that a string leads to. -/
def walk (a : Automaton) (i : Nat) : List Nat → Option Nat
  | [] => some i
  | c :: w => (a.step i c).bind fun j => a.walk j w

theorem walk_append (a : Automaton) (i : Nat) (u v : List Nat) :
    a.walk i (u ++ v) = (a.walk i u).bind fun j => a.walk j v := by
  induction u generalizing i with
  | nil => rfl
  | cons c u ih =>
    rw [List.cons_append, walk, walk, Option.bind_assoc]
    exact congrArg _ (funext fun j => ih j)

theorem Extends.walk (h : a.Extends b) {w : List Nat} (hw : a.walk i w = some j) :
    b.walk i w = some j := by
  induction w generalizing i with
  | nil => exact hw
  | cons c w ih =>
    obtain ⟨k, hk, hw⟩ := Option.bind_eq_some_iff.1 hw
    exact Option.bind_eq_some_iff.2 ⟨k, h.step hk, ih hw⟩

theorem step_eq_none (hi : a.states.length ≤ i) (c : Nat) : a.step i c = none := by
  rw [step, List.getElem?_eq_none hi]
  rfl

theorem kind_eq_eof (hi : a.states.length ≤ i) : a.kind i = .eof := by
  rw [kind, List.getElem?_eq_none hi]
  rfl

/-- A string that leads somewhere else than before leads to a new state. -/
theorem Extends.walk_new (h : a.Extends b) {w : List Nat} (hw : b.walk i w = some j) :
    a.walk i w = some j ∨ a.states.length ≤ j := by
  induction w generalizing i with
  | nil => exact .inl hw
  | cons c w ih =>
    obtain ⟨k, hk, hw⟩ := Option.bind_eq_some_iff.1 hw
    rcases h.new hk with hstep | hnew
    · exact (ih hw).imp_left fun hw => Option.bind_eq_some_iff.2 ⟨k, hstep, hw⟩
    · refine (ih hw).elim (fun hw => ?_) .inr
      -- from a new state only the empty string led anywhere
      cases w with
      | nil =>
        cases hw
        exact .inr hnew
      | cons d w =>
        rw [Automaton.walk, step_eq_none hnew] at hw
        cases hw

theorem Sound.walk_lt (h : a.Sound) {w : List Nat} (hi : i < a.states.length)
    (hw : a.walk i w = some j) :
    j < a.states.length := by
  induction w generalizing i with
  | nil =>
    cases hw
    exact hi
  | cons c w ih =>
    obtain ⟨k, hk, hw⟩ := Option.bind_eq_some_iff.1 hw
    exact ih (h.inside hk) hw

/-- The last step on the way of a string. -/
theorem exists_step_of_walk {u : List Nat} (h : a.walk i (u ++ [c]) = some j) :
    ∃ k, a.walk i u = some k ∧ a.step k c = some j := by
  rw [walk_append] at h
  obtain ⟨k, hk, h⟩ := Option.bind_eq_some_iff.1 h
  obtain ⟨l, hl, h⟩ := Option.bind_eq_some_iff.1 h
  cases h
  exact ⟨k, hk, hl⟩

/-- Different strings lead from the root to different states. -/
theorem Sound.walk_inj (h : a.Sound) {u v : List Nat} (hu : a.walk 0 u = some j)
    (hv : a.walk 0 v = some j) :
    u = v := by
  induction u using List.reverseRecOn generalizing v j with
  | nil =>
    cases hu
    rcases List.eq_nil_or_concat' v with rfl | ⟨v, c, rfl⟩
    · rfl
    · obtain ⟨k, -, hstep⟩ := exists_step_of_walk hv
      exact absurd hstep h.rootless
  | append_singleton u c ih =>
    obtain ⟨k, hk, hstep⟩ := exists_step_of_walk hu
    rcases List.eq_nil_or_concat' v with rfl | ⟨v, d, rfl⟩
    · cases hv
      exact absurd hstep h.rootless
    · obtain ⟨k', hk', hstep'⟩ := exists_step_of_walk hv
      obtain ⟨rfl, rfl⟩ := h.unique hstep hstep'
      rw [ih hk hk']

/-- The kind of the state that a string leads to from another state. -/
def kindFrom (a : Automaton) (i : Nat) (w : List Nat) : Kind := ((a.walk i w).map a.kind).getD .eof

def kindAt (a : Automaton) (w : List Nat) : Kind := a.kindFrom 0 w

theorem kindFrom_cons (a : Automaton) (i c : Nat) (w : List Nat) :
    a.kindFrom i (c :: w) = ((a.step i c).map fun j => a.kindFrom j w).getD .eof := by
  unfold kindFrom
  rw [walk]
  cases a.step i c <;> rfl

/-- New states have no kind yet. -/
theorem Extends.kindFrom (h : a.Extends b) (i : Nat) (w : List Nat) :
    b.kindFrom i w = a.kindFrom i w := by
  unfold Automaton.kindFrom
  cases hb : b.walk i w with
  | none =>
    cases ha : a.walk i w with
    | none => rfl
    | some j =>
      rw [h.walk ha] at hb
      cases hb
  | some j =>
    rcases h.walk_new hb with ha | hnew
    · rw [ha]
      exact h.kind j
    · have hkind : b.kind j = .eof := (h.kind j).trans (kind_eq_eof hnew)
      cases ha : a.walk i w with
      | none => exact hkind
      | some k =>
        rw [h.walk ha] at hb
        cases hb
        exact h.kind j

end Walk

section Insert

/-- The characters that a character of an entry stands for. -/
def variants (ignoreCase : Bool) (c : Nat) : List Nat := if ignoreCase then caseVariants c else [c]

/-- A string that an entry spells character by character. -/
def Spells (e : Entry) (w : List Nat) : Prop :=
  List.Forall₂ (fun c d => d ∈ variants e.ignoreCase c) e.codes w

/-- A larger tree, and the states that the spellings of a string lead to from these states. -/
structure Reaches (ignoreCase : Bool) (codes : List Nat) (a : Automaton) (is : List Nat)
    (r : Automaton × List Nat) :
    Prop where
  extension : a.Extends r.1
  sound : r.1.Sound
  found : ∀ i ∈ is, ∀ w, List.Forall₂ (fun c d => d ∈ variants ignoreCase c) codes w →
    ∃ j ∈ r.2, r.1.walk i w = some j
  only : ∀ j ∈ r.2, ∃ i ∈ is, ∃ w, List.Forall₂ (fun c d => d ∈ variants ignoreCase c) codes w ∧
    r.1.walk i w = some j

theorem reach_spec (ignoreCase : Bool) (codes : List Nat) {is : List Nat} (h : a.Sound)
    (his : ∀ i ∈ is, i < a.states.length) : Reaches ignoreCase codes a is
    (reach ignoreCase codes (a, is)) := by
  induction codes generalizing a is with
  | nil =>
    refine ⟨.refl a, h, fun i hi w hw => ?_, fun j hj => ⟨j, hj, [], .nil, rfl⟩⟩
    cases hw
    exact ⟨i, hi, rfl⟩
  | cons c codes ih =>
    have hspread := spreads_advance (variants ignoreCase c) h his []
    have hnext : ∀ j ∈ (advance (variants ignoreCase c) is (a, [])).2,
        j < (advance (variants ignoreCase c) is (a, [])).1.states.length := by
      intro j hj
      rcases hspread.only j hj with hj | ⟨i, d, -, hstep⟩
      · cases hj
      · exact hspread.sound.inside hstep
    have hrest := ih hspread.sound hnext
    refine ⟨hspread.extension.trans hrest.extension, hrest.sound, fun i hi w hw =>
      ?_, fun j hj => ?_⟩
    · cases hw with
      | @cons _ d _ w hd hw =>
        obtain ⟨k, hk, hstep⟩ := hspread.found i d ⟨hi, hd⟩
        obtain ⟨j, hj, hwalk⟩ := hrest.found k hk w hw
        exact ⟨j, hj, Option.bind_eq_some_iff.2 ⟨k, hrest.extension.step hstep, hwalk⟩⟩
    · obtain ⟨k, hk, w, hw, hwalk⟩ := hrest.only j hj
      rcases hspread.only k hk with hk | ⟨i, d, ⟨hi, hd⟩, hstep⟩
      · cases hk
      · exact ⟨i, hi, d :: w, .cons hd hw, Option.bind_eq_some_iff.2
          ⟨k, hrest.extension.step hstep, hwalk⟩⟩

section Reaches

variable {ignoreCase : Bool} {codes : List Nat} {r : Automaton × List Nat}

theorem Reaches.inside (h : Reaches ignoreCase codes a [0] r) : ∀ j ∈ r.2,
    j < r.1.states.length := by
  intro j hj
  obtain ⟨i, hi, w, -, hw⟩ := h.only j hj
  cases List.mem_singleton.1 hi
  exact h.sound.walk_lt h.sound.rooted hw

/-- Of the strings that lead from the root to a state, only spellings lead to one of those
reached. -/
theorem Reaches.mem_iff (h : Reaches ignoreCase codes a [0] r) {w : List Nat}
    (hw : r.1.walk 0 w = some j) :
    j ∈ r.2 ↔ List.Forall₂ (fun c d => d ∈ variants ignoreCase c) codes w := by
  constructor
  · intro hj
    obtain ⟨i, hi, w', hspells, hw'⟩ := h.only j hj
    cases List.mem_singleton.1 hi
    rwa [h.sound.walk_inj hw hw']
  · intro hspells
    obtain ⟨j', hj', hw'⟩ := h.found 0 (List.mem_singleton.2 rfl) w hspells
    rw [hw] at hw'
    cases hw'
    exact hj'

end Reaches

theorem step_mark (kind : Kind) (a : Automaton) (i k d : Nat) :
    (mark kind a i).step k d = a.step k d := by
  unfold step mark
  rw [List.getElem?_modify]
  cases a.states[k]? with
  | none => rfl
  | some s =>
    by_cases hik : i = k
    · simp [hik]
      rfl
    · simp [hik]

theorem kind_mark (kind : Kind) (hi : i < a.states.length) (k : Nat) :
    (mark kind a i).kind k = if k = i then kind else a.kind k := by
  unfold Automaton.kind mark
  rw [List.getElem?_modify]
  by_cases hk : k = i
  · subst hk
    rw [List.getElem?_eq_getElem hi]
    simp
  · rw [if_neg hk]
    simp [Ne.symm hk]

theorem length_mark (kind : Kind) (a : Automaton) (i : Nat) :
    (mark kind a i).states.length = a.states.length :=
  List.length_modify ..

theorem sorted_mark (kind : Kind) {i : Nat} (h : ∀ s ∈ a.states, s.Sorted) :
    ∀ s ∈ (mark kind a i).states, s.Sorted := by
  intro s hs
  obtain ⟨k, hk⟩ := List.mem_iff_getElem?.1 hs
  rw [mark, List.getElem?_modify] at hk
  obtain ⟨t, ht, rfl⟩ := Option.map_eq_some_iff.1 hk
  have hsorted := h t (List.mem_of_getElem? ht)
  split
  · exact hsorted
  · exact hsorted

/-- A tree with the links of a sound one. -/
theorem Sound.congr (h : a.Sound) (hsorted : ∀ s ∈ b.states, s.Sorted)
    (hlength : b.states.length = a.states.length)
    (hstep : ∀ i c, b.step i c = a.step i c) : b.Sound where
  sorted := hsorted
  rooted := hlength ▸ h.rooted
  inside hs := hlength ▸ h.inside (hstep _ _ ▸ hs)
  unique hs hs' := h.unique (hstep _ _ ▸ hs) (hstep _ _ ▸ hs')
  rootless hs := h.rootless (hstep _ _ ▸ hs)

/-- What marking states does to a tree. -/
theorem foldl_mark (kind : Kind) {ends : List Nat} (h : a.Sound)
    (hends : ∀ i ∈ ends, i < a.states.length) :
    (ends.foldl (mark kind) a).Sound ∧ (∀ k d, (ends.foldl (mark kind) a).step k d = a.step k d) ∧
      ∀ k, (ends.foldl (mark kind) a).kind k = if k ∈ ends then kind else a.kind k := by
  induction ends generalizing a with
  | nil => exact ⟨h, fun _ _ => rfl, fun k => by simp⟩
  | cons i ends ih =>
    obtain ⟨hi, hends⟩ := List.forall_mem_cons.1 hends
    have hmark : (mark kind a i).Sound :=
      h.congr (sorted_mark kind h.sorted) (length_mark kind a i) (step_mark kind a i)
    obtain ⟨hsound, hstep, hkind⟩ := ih hmark fun k hk => (length_mark kind a i).symm ▸ hends k hk
    refine ⟨hsound, fun k d => (hstep k d).trans (step_mark kind a i k d), fun k => ?_⟩
    rw [List.foldl_cons, hkind, kind_mark kind hi]
    by_cases hk : k ∈ ends
    · rw [if_pos hk, if_pos (List.mem_cons_of_mem i hk)]
    · simp only [hk, if_false, List.mem_cons, or_false]

theorem walk_congr (h : ∀ i c, b.step i c = a.step i c) (w : List Nat) :
    b.walk i w = a.walk i w := by
  induction w generalizing i with
  | nil => rfl
  | cons c w ih =>
    rw [Automaton.walk, Automaton.walk, h]
    exact congrArg _ (funext fun j => ih)

theorem step_empty (i c : Nat) : empty.step i c = none := by
  cases i with
  | zero => exact TreeState.step_fresh c
  | succ i => rfl

theorem sound_empty : empty.Sound where
  sorted := List.forall_mem_singleton.2 TreeState.sorted_fresh
  rooted := Nat.zero_lt_one
  inside hs := by rw [step_empty] at hs; cases hs
  unique hs := by rw [step_empty] at hs; cases hs
  rootless hs := by rw [step_empty] at hs; cases hs

theorem kindAt_empty (w : List Nat) : empty.kindAt w = .eof := by
  cases w with
  | nil => rfl
  | cons c w =>
    rw [kindAt, kindFrom_cons, step_empty]
    rfl

open Classical in
/-- An entry gives its kind to the strings it spells, and leaves all others as they are. -/
theorem insert_spec (h : a.Sound) (e : Entry) :
    (a.insert e).Sound ∧
      ∀ w, (a.insert e).kindAt w = if Spells e w then e.kind else a.kindAt w := by
  have hroot : ∀ i ∈ [0], i < a.states.length := List.forall_mem_singleton.2 h.rooted
  have hreach := reach_spec e.ignoreCase e.codes h hroot
  have hinsert : a.insert e =
      (reach e.ignoreCase e.codes (a, [0])).2.foldl (mark e.kind)
        (reach e.ignoreCase e.codes (a, [0])).1 := rfl
  generalize reach e.ignoreCase e.codes (a, [0]) = r at hreach hinsert
  obtain ⟨hmarked, hstep, hkind⟩ := foldl_mark e.kind hreach.sound hreach.inside
  rw [hinsert]
  refine ⟨hmarked, fun w => ?_⟩
  have hold : a.kindAt w = r.1.kindAt w := (hreach.extension.kindFrom 0 w).symm
  rw [hold, kindAt, kindAt, kindFrom, kindFrom, walk_congr hstep]
  cases hw : r.1.walk 0 w with
  | none =>
    have hnot : ¬Spells e w := by
      intro hspells
      obtain ⟨j, -, hj⟩ := hreach.found 0 (List.mem_singleton.2 rfl) w hspells
      rw [hw] at hj
      cases hj
    rw [if_neg hnot]
    rfl
  | some j =>
    have hend : j ∈ r.2 ↔ Spells e w := hreach.mem_iff hw
    simp only [Option.map_some, Option.getD_some, hkind, hend]

end Insert

end Automaton

end Lexical

end Formulary
