import Mathlib.Computability.Language
import Mathlib.Order.Bounds.Basic
import Mathlib.Order.CompletePartialOrder
import Formulary.Proofs.Lexical.Numerals

/-!
# Longest matches

A scanner computes the longest match of a language if it takes the longest prefix of its input that
belongs to the language, and fails where no prefix does. Scanners never go back into what a part has
taken, so a token of two parts is matched like that only where its first part cannot take characters
that the second one needs. What is looked at for it is the next character alone: one that continues
a word of the first language must start no word of the second.
-/

namespace Formulary

open Text (Glyph)
open Computability

namespace Lexical

def prefixes (L : Language Nat) (gs : List Glyph) : Set Nat :=
  {n | n ≤ gs.length ∧ (gs.take n).map (·.code) ∈ L}

/-- A scanner that takes the longest prefix in a language, and fails where there is none. -/
def Longest (s : Scanner) (L : Language Nat) : Prop :=
  ∀ gs, ((s gs).isSome ↔ (prefixes L gs).Nonempty) ∧ ∀ n, s gs = some n →
    IsGreatest (prefixes L gs) n

structure Scans (s : Scanner) (L : Language Nat) : Prop where
  taken : ∀ {gs n}, s gs = some n → n ∈ prefixes L gs
  found : ∀ {a : List Glyph}, a.map (·.code) ∈ L → ∀ b, ∃ n, s (a ++ b) = some n ∧ a.length ≤ n

theorem Scans.longest {s : Scanner} {L : Language Nat} (h : Scans s L) : Longest s L := by
  have hfound : ∀ {gs m}, m ∈ prefixes L gs → ∃ n, s gs = some n ∧ m ≤ n := by
    rintro gs m ⟨hm, hmem⟩
    have := h.found hmem (gs.drop m)
    rwa [List.take_append_drop, List.length_take_of_le hm] at this
  refine fun gs => ⟨⟨fun hs => ?_, fun ⟨m, hm⟩ => ?_⟩, fun n hn => ⟨h.taken hn, fun m hm => ?_⟩⟩
  · obtain ⟨n, hn⟩ := Option.isSome_iff_exists.1 hs
    exact ⟨n, h.taken hn⟩
  · obtain ⟨n, hn, -⟩ := hfound hm
    exact Option.isSome_iff_exists.2 ⟨n, hn⟩
  · obtain ⟨k, hk, hle⟩ := hfound hm
    rw [hn] at hk
    cases hk
    exact hle

theorem Scans.congr {s : Scanner} {L M : Language Nat} (h : Scans s L) (hLM : L = M) :
    Scans s M := hLM ▸ h

/-- The words of one character of a class. -/
def oneOf (p : Nat → Bool) : Language Nat := {w | ∃ c, p c = true ∧ w = [c]}

def plus (L : Language Nat) : Language Nat := L * L∗

/-- From `m` to `n` words of a language, one after the other. -/
def between (m n : Nat) (L : Language Nat) : Language Nat := {w | ∃ k, m ≤ k ∧ k ≤ n ∧ w ∈ L ^ k}

/-- The characters that start a word of a language. -/
def Words.first (L : Language Nat) : Set Nat := {c | ∃ w, c :: w ∈ L}

/-- The characters that continue a word of a language to a longer one. -/
def Words.next (L : Language Nat) : Set Nat := {c | ∃ u w, u ∈ L ∧ u ++ c :: w ∈ L}

open Words

section Characters

variable {A B : Language Nat}

theorem mem_oneOf_pow {p : Nat → Bool} {n : Nat} {w : List Nat} :
    w ∈ oneOf p ^ n ↔ w.length = n ∧ ∀ c ∈ w, p c = true := by
  induction n generalizing w with
  | zero =>
    rw [pow_zero, Language.mem_one, List.length_eq_zero_iff]
    exact ⟨fun h => ⟨h, h ▸ nofun⟩, And.left⟩
  | succ n ih =>
    rw [pow_succ', Language.mem_mul]
    constructor
    · rintro ⟨-, ⟨c, hc, rfl⟩, v, hv, rfl⟩
      obtain ⟨hlen, hall⟩ := ih.1 hv
      exact ⟨congrArg (· + 1) hlen, List.forall_mem_cons.2 ⟨hc, hall⟩⟩
    · rintro ⟨hlen, hall⟩
      cases w with
      | nil => cases hlen
      | cons c v =>
        obtain ⟨hc, hall⟩ := List.forall_mem_cons.1 hall
        exact ⟨[c], ⟨c, hc, rfl⟩, v, ih.2 ⟨Nat.succ.inj hlen, hall⟩, rfl⟩

theorem nil_notMem_oneOf (p : Nat → Bool) : [] ∉ oneOf p := nofun

theorem nil_notMem_mul (h : [] ∉ A) : [] ∉ A * B := by
  intro hmem
  obtain ⟨u, hu, v, -, huv⟩ := Language.mem_mul.1 hmem
  obtain ⟨rfl, -⟩ := List.append_eq_nil_iff.1 huv
  exact h hu

theorem nil_notMem_add (hA : [] ∉ A) (hB : [] ∉ B) : [] ∉ A + B := fun h => h.elim hA hB

theorem first_one : first 1 = ∅ := by
  ext c
  exact ⟨fun ⟨_, h⟩ => List.cons_ne_nil _ _ h, False.elim⟩

theorem first_oneOf (p : Nat → Bool) : first (oneOf p) = {c | p c = true} := by
  ext c
  refine ⟨fun ⟨w, d, hd, h⟩ => ?_, fun h => ⟨[], c, h, rfl⟩⟩
  cases h
  exact hd

theorem first_add (A B : Language Nat) : first (A + B) = first A ∪ first B := by
  ext c
  exact ⟨fun ⟨w, h⟩ => h.imp (⟨w, ·⟩) (⟨w, ·⟩), fun h =>
    h.elim (fun ⟨w, h⟩ => ⟨w, .inl h⟩) fun ⟨w, h⟩ => ⟨w, .inr h⟩⟩

theorem first_mul_subset (h : [] ∉ A) (B : Language Nat) : first (A * B) ⊆ first A := by
  rintro c ⟨w, hw⟩
  obtain ⟨u, hu, v, hv, huv⟩ := Language.mem_mul.1 hw
  cases u with
  | nil => exact absurd hu h
  | cons d u =>
    cases huv
    exact ⟨u, hu⟩

/-- Where all words have the same length, none continues another. -/
theorem next_oneOf_pow (p : Nat → Bool) (n : Nat) : next (oneOf p ^ n) = ∅ := by
  refine Set.eq_empty_of_forall_notMem fun c ⟨u, w, hu, hw⟩ => ?_
  have hlen := (mem_oneOf_pow.1 hw).1
  rw [List.length_append, (mem_oneOf_pow.1 hu).1, List.length_cons] at hlen
  omega

theorem next_oneOf (p : Nat → Bool) : next (oneOf p) = ∅ := by
  rw [← pow_one (oneOf p)]
  exact next_oneOf_pow p 1

theorem next_add_subset (hA : [] ∉ A) (hB : [] ∉ B) (h : Disjoint (first A) (first B)) :
    next (A + B) ⊆ next A ∪ next B := by
  rintro c ⟨u, w, hu, hw⟩
  cases u with
  | nil => exact absurd hu (nil_notMem_add hA hB)
  | cons d u =>
    rcases hu with hu | hu <;> rcases hw with hw | hw
    · exact .inl ⟨_, w, hu, hw⟩
    · exact absurd ⟨_, hw⟩ (Set.disjoint_left.1 h ⟨_, hu⟩)
    · exact absurd ⟨_, hu⟩ (Set.disjoint_left.1 h ⟨_, hw⟩)
    · exact .inr ⟨_, w, hu, hw⟩

theorem next_mul_subset (h : Disjoint (next A) (first B)) : next (A * B) ⊆ next A ∪ next B := by
  rintro c ⟨-, w, ⟨a, ha, b, hb, rfl⟩, a', ha', b', hb', heq⟩
  simp only [List.append_assoc] at heq
  rcases List.append_eq_append_iff.1 heq with ⟨x, rfl, rfl⟩ | ⟨x, rfl, hx⟩
  · cases x with
    | nil => exact .inr ⟨b, w, hb, hb'⟩
    | cons d x => exact absurd ⟨_, hb'⟩ (Set.disjoint_left.1 h ⟨a', x, ha', ha⟩)
  · cases x with
    | nil =>
      rw [List.nil_append] at hx
      exact .inr ⟨b, w, hb, hx ▸ hb'⟩
    | cons d x =>
      have hd : d ∈ next A := ⟨a, x, ha, ha'⟩
      cases b with
      | nil =>
        obtain ⟨rfl, -⟩ := List.cons.inj hx
        exact .inl hd
      | cons e b =>
        obtain ⟨rfl, -⟩ := List.cons.inj hx
        exact absurd ⟨b, hb⟩ (Set.disjoint_left.1 h hd)

theorem next_add_eq_empty (hA : next A = ∅) (hB : next B = ∅) (hnilA : [] ∉ A) (hnilB : [] ∉ B)
    (h : Disjoint (first A) (first B)) : next (A + B) = ∅ := by
  have := next_add_subset hnilA hnilB h
  rwa [hA, hB, Set.union_empty, Set.subset_empty_iff] at this

theorem next_mul_eq_empty (hA : next A = ∅) (hB : next B = ∅) : next (A * B) = ∅ := by
  have := next_mul_subset (B := B) (hA ▸ Set.empty_disjoint _)
  rwa [hA, hB, Set.union_empty, Set.subset_empty_iff] at this

end Characters

section Parts

variable {s t : Scanner} {A B : Language Nat} {p : Nat → Bool} {n : Nat}

/-- No word of the first language goes on into what a word of the second one needs. -/
def Apart (A B : Language Nat) : Prop :=
  ∀ u w v z, u ∈ A → u ++ w ∈ A → w ≠ [] → v ∈ B → w <+: z → v <+: z → v = []

theorem apart_of_disjoint (h : Disjoint (next A) (first B)) : Apart A B := by
  intro u w v z hu hw hne hv hwz hvz
  cases v with
  | nil => rfl
  | cons c v =>
    cases w with
    | nil => exact absurd rfl hne
    | cons d w =>
      obtain ⟨x, rfl⟩ := hwz
      cases (List.cons_prefix_cons.1 hvz).1
      exact absurd ⟨v, hv⟩ (Set.disjoint_left.1 h ⟨u, w, hu, hw⟩)

/-- A first part whose words do not continue each other. -/
theorem apart_of_next_eq_empty (h : next A = ∅) (B : Language Nat) : Apart A B :=
  apart_of_disjoint (h ▸ Set.empty_disjoint _)

theorem prefixes_append {gs : List Glyph} {m n : Nat} (hm : m ∈ prefixes A gs)
    (hn : n ∈ prefixes B (gs.drop m)) :
    m + n ∈ prefixes (A * B) gs := by
  obtain ⟨hm, hA⟩ := hm
  obtain ⟨hn, hB⟩ := hn
  rw [List.length_drop] at hn
  refine ⟨by omega, ?_⟩
  rw [List.take_add, List.map_append]
  exact Language.append_mem_mul hA hB

/-- Where the first part is taken as a word of its language, no longer one takes from what the
second part needs. -/
theorem Scans.first_part (hs : Scans s A) (hapart : Apart A B) {a b : List Glyph}
    (ha : a.map (·.code) ∈ A) (hb : b.map (·.code) ∈ B) (c : List Glyph) :
    ∃ n, s (a ++ (b ++ c)) = some n ∧ (n = a.length ∨ b = [] ∧ a.length ≤ n) := by
  obtain ⟨n, hn, hle⟩ := hs.found ha (b ++ c)
  refine ⟨n, hn, or_iff_not_imp_left.2 fun hne => ⟨?_, hle⟩⟩
  obtain ⟨hlen, hmem⟩ := hs.taken hn
  obtain ⟨k, rfl⟩ := Nat.exists_eq_add_of_le hle
  rw [List.take_length_add_append, List.map_append] at hmem
  rw [List.length_append] at hlen
  refine List.map_eq_nil_iff.1 (hapart _ _ _ ((b ++ c).map (·.code)) ha hmem ?_ hb ?_ ?_)
  · intro h
    have := congrArg List.length h
    rw [List.length_map, List.length_take, List.length_nil] at this
    omega
  · exact (List.take_prefix k _).map _
  · exact (List.prefix_append b c).map _

theorem scans_nothing : Scans (fun _ => some 0) 1 where
  taken h := by
    cases h
    exact ⟨Nat.zero_le _, rfl⟩
  found {a} h b := ⟨0, rfl, by rw [List.map_eq_nil_iff.1 h]; rfl⟩

theorem scans_one (p : Nat → Bool) : Scans (one p) (oneOf p) where
  taken h := by
    obtain ⟨g, gs, rfl, hg, rfl⟩ := exists_of_one h
    exact ⟨Nat.succ_le_succ (Nat.zero_le _), g.code, hg, rfl⟩
  found {a} h b := by
    obtain ⟨c, hc, h⟩ := h
    obtain ⟨g, rfl, rfl⟩ := List.map_eq_singleton_iff.1 h
    exact ⟨1, if_pos hc, Nat.le_refl 1⟩

theorem map_take_run (p : Nat → Bool) (gs : List Glyph) :
    ∀ c ∈ (gs.take (run p gs)).map (·.code), p c = true :=
  List.forall_mem_map.2 of_mem_take_run

theorem le_run_append {a : List Glyph} (h : ∀ c ∈ a.map (·.code), p c = true) (b : List Glyph) :
    a.length ≤ run p (a ++ b) := by
  induction a with
  | nil => exact Nat.zero_le _
  | cons g a ih =>
    obtain ⟨hg, ha⟩ := List.forall_mem_cons.1 h
    rw [List.cons_append, run, if_pos hg]
    exact Nat.succ_le_succ (ih ha)

theorem scans_exactly (p : Nat → Bool) (n : Nat) : Scans (exactly p n) (oneOf p ^ n) where
  taken {gs k} h := by
    unfold exactly at h
    split at h
    · cases h
      rename_i hrun
      rw [beq_iff_eq] at hrun
      have hle := run_le p (gs.take n)
      rw [List.length_take] at hle
      refine ⟨by omega, mem_oneOf_pow.2 ⟨?_, ?_⟩⟩
      · rw [List.length_map, List.length_take]
        omega
      · have := map_take_run p (gs.take n)
        rwa [List.take_take, Nat.min_eq_left (by omega), hrun] at this
    · cases h
  found {a} h b := by
    obtain ⟨hlen, hall⟩ := mem_oneOf_pow.1 h
    rw [List.length_map] at hlen
    have hle := le_run_append hall []
    have hrun := run_le p a
    rw [List.append_nil] at hle
    refine ⟨n, if_pos ?_, Nat.le_of_eq hlen⟩
    rw [List.take_left' hlen, beq_iff_eq]
    omega

theorem Scans.both (hs : Scans s A) (ht : Scans t B) (hapart : Apart A B) :
    Scans (both s t) (A * B) where
  taken h := by
    obtain ⟨m, hm, h⟩ := Option.bind_eq_some_iff.1 h
    obtain ⟨k, hk, rfl⟩ := Option.map_eq_some_iff.1 h
    exact prefixes_append (hs.taken hm) (ht.taken hk)
  found {x} h c := by
    obtain ⟨u, hu, v, hv, huv⟩ := Language.mem_mul.1 h
    obtain ⟨a, b, rfl, rfl, rfl⟩ := List.map_eq_append_iff.1 huv.symm
    obtain ⟨n, hn, hend⟩ := hs.first_part hapart hu hv c
    have hback : ∃ k, t ((a ++ (b ++ c)).drop n) = some k ∧ (a ++ b).length ≤ n + k := by
      rw [List.length_append]
      obtain rfl | ⟨rfl, hle⟩ := hend
      · obtain ⟨k, hk, hle⟩ := ht.found hv c
        exact ⟨k, by rw [List.drop_left, hk], Nat.add_le_add_left hle _⟩
      · obtain ⟨k, hk, -⟩ := ht.found hv ((a ++ ([] ++ c)).drop n)
        exact ⟨k, hk, Nat.le_add_right_of_le hle⟩
    obtain ⟨k, hk, hle⟩ := hback
    exact ⟨n + k, by rw [List.append_assoc, Lexical.both, hn, Option.bind_some, hk,
      Option.map_some], hle⟩

/-- The end of a list of parts. -/
theorem Scans.last (hs : Scans s A) : Scans (Lexical.both s fun _ => some 0) A :=
  (hs.both scans_nothing (apart_of_disjoint (first_one ▸ Set.disjoint_empty _))).congr (mul_one A)

/-- A character that starts no word of the language. -/
theorem Scans.eq_none_of_notMem (hs : Scans s A) (hA : [] ∉ A) {g : Glyph} (hg : g.code ∉ first A)
    (gs : List Glyph) :
    s (g :: gs) = none := by
  cases h : s (g :: gs) with
  | none => rfl
  | some n =>
    obtain ⟨-, hmem⟩ := hs.taken h
    cases n with
    | zero => exact absurd hmem hA
    | succ n => exact absurd ⟨_, hmem⟩ hg

theorem Scans.either (hs : Scans s A) (ht : Scans t B) (hA : [] ∉ A)
    (h : Disjoint (first A) (first B)) :
    Scans (either s t) (A + B) where
  taken h := by
    rcases Option.or_eq_some_iff.1 h with h | ⟨-, h⟩
    · exact (hs.taken h).imp_right .inl
    · exact (ht.taken h).imp_right .inr
  found {a} hmem b := by
    obtain hmem | hmem := hmem
    · obtain ⟨n, hn, hle⟩ := hs.found hmem b
      exact ⟨n, by rw [Lexical.either, hn]; rfl, hle⟩
    · cases a with
      | nil =>
        obtain ⟨n, hn, -⟩ := ht.found hmem b
        cases hs' : s ([] ++ b) with
        | none => exact ⟨n, by rw [Lexical.either, hs', hn]; rfl, Nat.zero_le n⟩
        | some m => exact ⟨m, by rw [Lexical.either, hs']; rfl, Nat.zero_le m⟩
      | cons g a =>
        obtain ⟨n, hn, hle⟩ := ht.found hmem b
        have hnone := hs.eq_none_of_notMem hA (Set.disjoint_right.1 h ⟨_, hmem⟩) (a ++ b)
        exact ⟨n, by rw [Lexical.either, List.cons_append, hnone, ← List.cons_append, hn]; rfl, hle⟩

theorem Scans.optional (hs : Scans s A) : Scans (optional s) (1 + A) where
  taken {gs n} h := by
    cases h
    cases hn : s gs with
    | none => exact ⟨Nat.zero_le _, .inl rfl⟩
    | some n => exact (hs.taken hn).imp_right .inr
  found {a} hmem b := by
    refine ⟨_, rfl, ?_⟩
    obtain hmem | hmem := hmem
    · rw [List.map_eq_nil_iff.1 hmem]
      exact Nat.zero_le _
    · obtain ⟨n, hn, hle⟩ := hs.found hmem b
      rwa [hn]

section Loop

variable {loop : Scanner} (hs : Scans s A) (ht : Scans t B) (hA : [] ∉ A)
  (hloop : loop = Lexical.either t (Lexical.both s loop))
include hs ht hA hloop

/-- What pieces and a closing one take, by induction on what remains. -/
theorem loop_taken {gs : List Glyph} {n : Nat} (h : loop gs = some n) :
    n ∈ prefixes (A∗ * B) gs := by
  have hL : A∗ * B = A * (A∗ * B) + B := (Language.self_eq_mul_add_iff hA).2 rfl
  induction hlen : gs.length using Nat.strong_induction_on generalizing gs n with
  | _ len ih =>
    rw [hloop] at h
    rw [hL]
    rcases Option.or_eq_some_iff.1 h with h | ⟨-, h⟩
    · exact (ht.taken h).imp_right .inr
    · obtain ⟨m, hm, h⟩ := Option.bind_eq_some_iff.1 h
      obtain ⟨k, hk, rfl⟩ := Option.map_eq_some_iff.1 h
      have hpiece := hs.taken hm
      have hpos : m ≠ 0 := by
        rintro rfl
        exact hA hpiece.2
      have hle := hpiece.1
      have hrest := ih (gs.drop m).length (by rw [List.length_drop]; omega) hk rfl
      exact (prefixes_append hpiece hrest).imp_right .inl

/-- Pieces and a closing one at the front are taken, by induction on them. -/
theorem loop_found (hB : [] ∉ B) (hnext : next A = ∅) (hfirst : Disjoint (first A) (first B))
    {a : List Glyph}
    (h : a.map (·.code) ∈ A∗ * B) (b : List Glyph) : ∃ n, loop (a ++ b) = some n ∧
    a.length ≤ n := by
  have hL : A∗ * B = A * (A∗ * B) + B := (Language.self_eq_mul_add_iff hA).2 rfl
  have hnil : [] ∉ A∗ * B := hL ▸ nil_notMem_add (nil_notMem_mul hA) hB
  induction hlen : a.length using Nat.strong_induction_on generalizing a with
  | _ len ih =>
    rw [hloop]
    rw [hL] at h
    obtain h | h := h
    · obtain ⟨u, hu, v, hv, huv⟩ := Language.mem_mul.1 h
      obtain ⟨x, y, rfl, rfl, rfl⟩ := List.map_eq_append_iff.1 huv.symm
      have hx : x ≠ [] := by
        rintro rfl
        exact hA hu
      have hclosed : t (x ++ y ++ b) = none := by
        obtain ⟨g, x, rfl⟩ := List.exists_cons_of_ne_nil hx
        exact ht.eq_none_of_notMem hB (Set.disjoint_left.1 hfirst ⟨_, hu⟩) _
      obtain ⟨n, hn, rfl | ⟨rfl, -⟩⟩ := hs.first_part (apart_of_next_eq_empty hnext _) hu hv b
      · obtain ⟨k, hk, hle⟩ := ih y.length (by
          rw [← hlen, List.length_append]
          exact Nat.lt_add_of_pos_left (List.length_pos_iff.2 hx)) hv rfl
        refine ⟨x.length + k,
          ?_, by rw [← hlen, List.length_append]; exact Nat.add_le_add_left hle _⟩
        rw [Lexical.either, hclosed, Option.none_or, Lexical.both, List.append_assoc, hn,
          Option.bind_some, List.drop_left, hk, Option.map_some]
      · exact absurd hv hnil
    · obtain ⟨n, hn, hle⟩ := ht.found h b
      exact ⟨n, by rw [Lexical.either, hn]; rfl, hlen ▸ hle⟩

end Loop

/-- A scanner that takes pieces until a closing one. -/
theorem Scans.loop {loop : Scanner} (hs : Scans s A) (ht : Scans t B) (hA : [] ∉ A) (hB : [] ∉ B)
    (hnext : next A = ∅) (hfirst : Disjoint (first A) (first B))
    (hloop : loop = Lexical.either t (Lexical.both s loop)) :
    Scans loop (A∗ * B) :=
  ⟨loop_taken hs ht hA hloop, loop_found hs ht hA hloop hB hnext hfirst⟩

end Parts

end Lexical

end Formulary
