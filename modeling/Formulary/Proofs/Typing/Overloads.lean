import Mathlib.Algebra.Order.Ring.Rat
import Mathlib.Data.List.Perm.Basic
import Formulary.Proofs.Typing.Applicability

/-!
# Overload resolution picks the unique best candidate

The loop keeps the first match with the lowest score so far and counts the later ones that share it.
Measured in exact rationals, a candidate is called if and only if it may be used, takes the
arguments and has a lower score than every other candidate of that kind. The conditions for the four
outcomes exclude each other, so it is enough that each outcome meets its own; none of them depends
on the order of the candidates.
-/

namespace Formulary.Overload

variable {α : Type} {score : Ty → Ty → Int} {cs ds : List (Candidate α)} {args : List Ty}
  {m n : Match α ℚ}

def Scale.exact : Scale ℚ where
  mean total n := if n = 0 then 0 else (total : ℚ) / n
  penalty q := q + 1
  bare := 1 / 10
  less p q := decide (p < q)
  same p q := decide (p = q)

/-- Candidates that can be declared, none of which is an extension with a variadic parameter
only. -/
def Declarable (cs : List (Candidate α)) : Prop := ∀ c ∈ cs, c.Regular ∧ ¬c.Hollow

/-- A candidate that may be used and takes the arguments with a score. -/
def Usable (score : Ty → Ty → Int) (args : List Ty) (c : Candidate α) (q : ℚ) : Prop :=
  c.accessible = true ∧ ∃ expanded, Rates .exact score c args q expanded

structure Wins (score : Ty → Ty → Int) (cs : List (Candidate α)) (args : List Ty)
    (m : Match α ℚ) : Prop where
  place : cs[m.index]? = some m.candidate
  accessible : m.candidate.accessible = true
  rates : Rates .exact score m.candidate args m.score m.expanded
  lowest : ∀ d ∈ cs.eraseIdx m.index, ∀ q, Usable score args d q → m.score < q

/-- Two of the candidates that may be used share the lowest score. -/
def Tied (score : Ty → Ty → Int) (cs : List (Candidate α)) (args : List Ty) : Prop :=
  ∃ i c q, cs[i]? = some c ∧ Usable score args c q ∧ (∃ d ∈ cs.eraseIdx i, Usable score args d q) ∧
    ∀ d ∈ cs, ∀ r, Usable score args d r → q ≤ r

/-- Some candidate takes the arguments, but none of those may be used. -/
def Denied (score : Ty → Ty → Int) (cs : List (Candidate α)) (args : List Ty) : Prop :=
  (∃ c ∈ cs, Applies .exact score c args) ∧ ∀ c ∈ cs, Applies .exact score c args →
    c.accessible = false

def Unmatched (score : Ty → Ty → Int) (cs : List (Candidate α)) (args : List Ty) : Prop :=
  ∀ c ∈ cs, ¬Applies .exact score c args

/-- The resolution fails with a reason, whatever the name of the call. -/
def Refuses (score : Ty → Ty → Int) (cs : List (Candidate α)) (args : List Ty)
    (r : Reason) : Prop :=
  ∃ fault, resolve .exact score cs args = .error fault ∧
    ∀ name, ∃ e, fault.failure name args = .compile e ∧ e.reason = r

section Matches

variable {σ : Type} {scale : Scale σ} {found : List (Match α σ)} {x y : Match α σ} {k : Nat}

/-- Matches are found unless a candidate is beyond the rules. -/
theorem matches?_eq_none : matches? scale score args k cs = none ↔ ∃ c ∈ cs,
    fit scale score c args = .broken := by
  induction cs generalizing k with
  | nil => simp [matches?]
  | cons c cs ih =>
    rw [matches?]
    cases hfit : fit scale score c args with
    | broken => simp [hfit]
    | no => simp [hfit, ih]
    | yes q expanded => simp [hfit, ih]

/-- The matches are those of the candidates that fit, with their places. -/
theorem mem_matches? (h : matches? scale score args k cs = some found) :
    x ∈ found ↔ (x.candidate, x.index) ∈ cs.zipIdx k ∧
      fit scale score x.candidate args = .yes x.score x.expanded := by
  induction cs generalizing k found with
  | nil =>
    cases h
    simp
  | cons c cs ih =>
    rw [matches?] at h
    rw [List.zipIdx_cons, List.mem_cons, Prod.mk.injEq]
    cases hfit : fit scale score c args with
    | broken =>
      rw [hfit] at h
      cases h
    | no =>
      rw [hfit] at h
      rw [ih h]
      refine and_congr_left fun hyes => (or_iff_right ?_).symm
      rintro ⟨hc, -⟩
      rw [hc, hfit] at hyes
      cases hyes
    | yes q expanded =>
      rw [hfit] at h
      obtain ⟨rest, hrest, rfl⟩ := Option.map_eq_some_iff.1 h
      rw [List.mem_cons, ih hrest, or_and_right]
      refine or_congr_left ⟨?_, ?_⟩
      · rintro rfl
        exact ⟨⟨rfl, rfl⟩, hfit⟩
      · rintro ⟨⟨hc, hi⟩, hyes⟩
        obtain ⟨d, i, p, e⟩ := x
        obtain ⟨rfl, rfl⟩ : d = c ∧ i = k := ⟨hc, hi⟩
        rw [hfit] at hyes
        cases hyes
        rfl

/-- The matches are in the order of the candidates. -/
theorem matches?_increasing (h : matches? scale score args k cs = some found) :
    found.Pairwise fun x y => x.index < y.index := by
  induction cs generalizing k found with
  | nil =>
    cases h
    exact .nil
  | cons c cs ih =>
    rw [matches?] at h
    split at h
    · cases h
    · exact ih h
    · obtain ⟨rest, hrest, rfl⟩ := Option.map_eq_some_iff.1 h
      refine .cons (fun y hy => ?_) (ih hrest)
      exact List.le_snd_of_mem_zipIdx ((mem_matches? hrest).1 hy).1

/-- A resolution is beyond the rules exactly if a candidate is an extension with a variadic
parameter only, and there are arguments. -/
theorem resolve_eq_broken (hregular : ∀ c ∈ cs, c.Regular) :
    resolve scale score cs args = .error .broken ↔ ∃ c ∈ cs, c.Hollow ∧ args ≠ [] := by
  have hbroken : resolve scale score cs args = .error .broken ↔
      matches? scale score args 0 cs = none := by
    unfold resolve
    cases matches? scale score args 0 cs with
    | none => simp
    | some found =>
      refine ⟨fun h => ?_, nofun⟩
      simp only at h
      split at h
      · split at h <;> cases h
      · cases h
      · cases h
  rw [hbroken, matches?_eq_none]
  exact exists_congr fun c => and_congr_right fun hc => fit_eq_broken (hregular c hc)

end Matches

section Best

/-- What the loop keeps: the first of the lowest scores, and the number of later matches that share
it. Either the match it started with is never beaten, or it is forgotten together with its ties. -/
theorem best_exact (m : Match α ℚ) (ties : Nat) (rest : List (Match α ℚ)) :
    (best .exact m ties rest = (m, ties + rest.countP (·.score = m.score)) ∧ ∀ n ∈ rest,
      m.score ≤ n.score) ∨
      ∃ (before : List (Match α ℚ)) (w : Match α ℚ) (after : List (Match α ℚ)),
        rest = before ++ w :: after ∧
        best .exact m ties rest = (w, after.countP (·.score = w.score)) ∧
        w.score < m.score ∧ (∀ n ∈ before, w.score < n.score) ∧ ∀ n ∈ after, w.score ≤ n.score := by
  induction rest generalizing m ties with
  | nil => exact .inl ⟨rfl, nofun⟩
  | cons n rest ih =>
    have hless : Scale.exact.less n.score m.score = decide (n.score < m.score) := rfl
    have hsame : Scale.exact.same n.score m.score = decide (n.score = m.score) := rfl
    rw [best, hless, hsame]
    rcases lt_trichotomy n.score m.score with hlt | heq | hgt
    -- A better match starts the count again, so whatever was counted before is gone.
    · rw [if_pos (decide_eq_true hlt)]
      right
      rcases ih n 0 with ⟨hbest, hmin⟩ | ⟨before, w, after, rfl, hbest, hw, hbefore, hafter⟩
      · exact ⟨[], n, rest, rfl, by rw [hbest, Nat.zero_add], hlt, nofun, hmin⟩
      · exact ⟨n :: before, w, after, rfl, hbest, hw.trans hlt,
          List.forall_mem_cons.2 ⟨hw, hbefore⟩, hafter⟩
    · rw [if_neg (by simp [heq]), if_pos (decide_eq_true heq)]
      rcases ih m (ties + 1) with ⟨hbest, hmin⟩ | ⟨before, w, after, rfl, hbest, hw,
        hbefore, hafter⟩
      · left
        rw [hbest, List.countP_cons_of_pos (by simpa using heq)]
        exact ⟨by rw [Nat.add_assoc, Nat.add_comm 1], List.forall_mem_cons.2 ⟨heq.ge, hmin⟩⟩
      · right
        exact ⟨n :: before, w, after, rfl, hbest, hw,
          List.forall_mem_cons.2 ⟨hw.trans_eq heq.symm, hbefore⟩, hafter⟩
    · rw [if_neg (by simpa using hgt.le), if_neg (by simpa using hgt.ne')]
      rcases ih m ties with ⟨hbest, hmin⟩ | ⟨before, w, after, rfl, hbest, hw, hbefore, hafter⟩
      · left
        rw [hbest, List.countP_cons_of_neg (by simpa using hgt.ne')]
        exact ⟨rfl, List.forall_mem_cons.2 ⟨hgt.le, hmin⟩⟩
      · right
        exact ⟨n :: before, w, after, rfl, hbest, hw,
          List.forall_mem_cons.2 ⟨hw.trans hgt, hbefore⟩, hafter⟩

/-- The winner parts the matches: the earlier ones are worse, the later ones no better, and the
counter is the number of those that are as good. -/
theorem best_parts (m : Match α ℚ) (rest : List (Match α ℚ)) :
    ∃ (before : List (Match α ℚ)) (w : Match α ℚ) (after : List (Match α ℚ)),
      m :: rest = before ++ w :: after ∧
      best .exact m 0 rest = (w, after.countP (·.score = w.score)) ∧
      (∀ n ∈ before, w.score < n.score) ∧ ∀ n ∈ after, w.score ≤ n.score := by
  rcases best_exact m 0 rest with ⟨hbest, hmin⟩ | ⟨before, w, after, rfl, hbest, hw,
    hbefore, hafter⟩
  · exact ⟨[], m, rest, rfl, by rw [hbest, Nat.zero_add], nofun, hmin⟩
  · exact ⟨m :: before, w, after, rfl, hbest, List.forall_mem_cons.2 ⟨hw, hbefore⟩, hafter⟩

end Best

section Outcomes

variable {q r : ℚ} {e e' : Bool} {c : Candidate α}

/-- A candidate takes arguments with one score only. -/
theorem Rates.unique (h : c.Regular) (hq : Rates .exact score c args q e)
    (hr : Rates .exact score c args r e') :
    q = r ∧ e = e' := by
  have hsame := ((fit_eq_yes h).2 hq).symm.trans ((fit_eq_yes h).2 hr)
  exact Fit.yes.inj hsame

theorem Usable.applies (h : Usable score args c q) : Applies .exact score c args := ⟨q, h.2⟩

theorem Wins.usable (h : Wins score cs args m) : Usable score args m.candidate m.score :=
  ⟨h.accessible, m.expanded, h.rates⟩

theorem Wins.mem (h : Wins score cs args m) : m.candidate ∈ cs := List.mem_of_getElem? h.place

/-- Two winners would each have the lower score. -/
theorem Wins.unique (hcs : Declarable cs) (hm : Wins score cs args m)
    (hn : Wins score cs args n) : m = n := by
  by_cases hindex : m.index = n.index
  · obtain ⟨c, i, q, e⟩ := m
    obtain ⟨d, j, r, f⟩ := n
    obtain rfl : i = j := hindex
    obtain rfl : c = d := Option.some.inj (hm.place.symm.trans hn.place)
    obtain ⟨rfl, rfl⟩ := hm.rates.unique (hcs c hm.mem).1 hn.rates
    rfl
  · have hmn := hm.lowest n.candidate (List.mem_eraseIdx_iff_getElem?.2
      ⟨_, Ne.symm hindex, hn.place⟩) _ hn.usable
    have hnm := hn.lowest m.candidate (List.mem_eraseIdx_iff_getElem?.2 ⟨_, hindex, hm.place⟩) _
      hm.usable
    exact absurd hmn hnm.asymm

theorem Wins.not_tied (hcs : Declarable cs) (hm : Wins score cs args m) : ¬Tied score cs args := by
  rintro ⟨i, c, q, hplace, hc, ⟨d, hd, hdq⟩, hmin⟩
  by_cases hindex : i = m.index
  · subst hindex
    obtain rfl : m.candidate = c := Option.some.inj (hm.place.symm.trans hplace)
    obtain ⟨-, e, hrates⟩ := hc
    obtain ⟨rfl, -⟩ := hm.rates.unique (hcs _ hm.mem).1 hrates
    exact absurd (hm.lowest d hd _ hdq) (lt_irrefl _)
  · have hlow := hm.lowest c (List.mem_eraseIdx_iff_getElem?.2 ⟨i, hindex, hplace⟩) q hc
    exact absurd (hmin _ hm.mem _ hm.usable) (not_le.2 hlow)

theorem Tied.exists_usable (h : Tied score cs args) : ∃ c ∈ cs, ∃ q, Usable score args c q := by
  obtain ⟨i, c, q, hplace, hc, -⟩ := h
  exact ⟨c, List.mem_of_getElem? hplace, q, hc⟩

theorem Denied.not_usable (h : Denied score cs args) : ¬∃ c ∈ cs, ∃ q, Usable score args c q := by
  rintro ⟨c, hc, q, hq⟩
  have hdenied := h.2 c hc hq.applies
  rw [hq.1] at hdenied
  cases hdenied

theorem Unmatched.not_denied (h : Unmatched score cs args) : ¬Denied score cs args :=
  fun ⟨⟨c, hc, happlies⟩, _⟩ => h c hc happlies

theorem Unmatched.not_usable (h : Unmatched score cs args) : ¬∃ c ∈ cs, ∃ q,
    Usable score args c q :=
  fun ⟨c, hc, _, hq⟩ => h c hc hq.applies

/-- What holds of the candidates for a winner and for each reason to refuse a call. -/
inductive Outcome (score : Ty → Ty → Int) (cs : List (Candidate α)) (args : List Ty) :
    Except Reason (Match α ℚ) → Prop
  | wins {m : Match α ℚ} (h : Wins score cs args m) : Outcome score cs args (.ok m)
  | tied (h : Tied score cs args) : Outcome score cs args (.error .ambiguousMatch)
  | denied (h : Denied score cs args) : Outcome score cs args (.error .accessDenied)
  | unmatched (h : Unmatched score cs args) : Outcome score cs args (.error .undefinedName)

theorem Outcome.usable {x : Except Reason (Match α ℚ)} (h : Outcome score cs args x) :
    (∃ c ∈ cs, ∃ q, Usable score args c q) ↔ x ≠ .error .accessDenied ∧
      x ≠ .error .undefinedName := by
  cases h with
  | wins h => exact ⟨fun _ => ⟨nofun, nofun⟩, fun _ => ⟨_, h.mem, _, h.usable⟩⟩
  | tied h => exact ⟨fun _ => ⟨nofun, nofun⟩, fun _ => h.exists_usable⟩
  | denied h => exact ⟨fun husable => absurd husable h.not_usable, fun hne => absurd rfl hne.1⟩
  | unmatched h => exact ⟨fun husable => absurd husable h.not_usable, fun hne => absurd rfl hne.2⟩

/-- The conditions exclude each other. -/
theorem Outcome.unique (hcs : Declarable cs) {x y : Except Reason (Match α ℚ)}
    (hx : Outcome score cs args x)
    (hy : Outcome score cs args y) : x = y := by
  -- Whether a candidate may be used and takes the arguments tells the first two outcomes from the
  -- last two.
  have husable := hx.usable.symm.trans hy.usable
  cases hx with
  | wins hm =>
    cases hy with
    | wins hn => rw [hm.unique hcs hn]
    | tied htied => exact absurd htied (hm.not_tied hcs)
    | denied => simp at husable
    | unmatched => simp at husable
  | tied htied =>
    cases hy with
    | wins hn => exact absurd htied (hn.not_tied hcs)
    | tied => rfl
    | denied => simp at husable
    | unmatched => simp at husable
  | denied hdenied =>
    cases hy with
    | denied => rfl
    | unmatched hunmatched => exact absurd hdenied hunmatched.not_denied
    | _ => simp at husable
  | unmatched hunmatched =>
    cases hy with
    | denied hdenied => exact absurd hdenied hunmatched.not_denied
    | unmatched => rfl
    | _ => simp at husable

/-- The matches that are found are those of the candidates that take the arguments. -/
theorem matches?_exact (score : Ty → Ty → Int) (args : List Ty) (hcs : Declarable cs) :
    ∃ found, matches? .exact score args 0 cs = some found ∧ ∀ x : Match α ℚ, x ∈ found ↔
      cs[x.index]? = some x.candidate ∧ Rates .exact score x.candidate args x.score x.expanded := by
  cases hfound : matches? .exact score args 0 cs with
  | none =>
    obtain ⟨c, hc, hbroken⟩ := matches?_eq_none.1 hfound
    exact absurd ((fit_eq_broken (hcs c hc).1).1 hbroken).1 (hcs c hc).2
  | some found =>
    refine ⟨found, rfl, fun x => ?_⟩
    rw [mem_matches? hfound, List.mem_zipIdx_iff_getElem?]
    exact and_congr_right fun hplace => fit_eq_yes (hcs _ (List.mem_of_getElem? hplace)).1

structure Listing (score : Ty → Ty → Int) (cs : List (Candidate α)) (args : List Ty)
    (l : List (Match α ℚ)) : Prop where
  increasing : l.Pairwise fun x y => x.index < y.index
  mem : ∀ x, x ∈ l ↔ cs[x.index]? = some x.candidate ∧ x.candidate.accessible = true ∧
    Rates .exact score x.candidate args x.score x.expanded

namespace Listing

variable {before after : List (Match α ℚ)}

theorem usable {l : List (Match α ℚ)} (h : Listing score cs args l) (hm : m ∈ l) :
    Usable score args m.candidate m.score :=
  ⟨((h.mem m).1 hm).2.1, m.expanded, ((h.mem m).1 hm).2.2⟩

/-- The other candidates that may be used have their matches before or after. -/
theorem exists_other (h : Listing score cs args (before ++ m :: after)) {d : Candidate α}
    (hd : d ∈ cs.eraseIdx m.index) (hq : Usable score args d q) : ∃ x, (x ∈ before ∨ x ∈ after) ∧
    x.score = q := by
  obtain ⟨i, hi, hplace⟩ := List.mem_eraseIdx_iff_getElem?.1 hd
  obtain ⟨haccess, e, hrates⟩ := hq
  refine ⟨⟨d, i, q, e⟩, ?_, rfl⟩
  rcases List.mem_append.1 ((h.mem ⟨d, i, q, e⟩).2 ⟨hplace, haccess, hrates⟩) with hx | hx
  · exact .inl hx
  · rcases List.mem_cons.1 hx with rfl | hx
    · exact absurd rfl hi
    · exact .inr hx

/-- A later match is that of another candidate. -/
theorem candidate_mem_eraseIdx (h : Listing score cs args (before ++ m :: after)) (hn : n ∈ after) :
    n.candidate ∈ cs.eraseIdx m.index := by
  have hplace := ((h.mem n).1 (List.mem_append_right _ (List.mem_cons_of_mem _ hn))).1
  have hlt := (List.pairwise_cons.1 (List.pairwise_append.1 h.increasing).2.1).1 n hn
  exact List.mem_eraseIdx_iff_getElem?.2 ⟨n.index, Nat.ne_of_gt hlt, hplace⟩

/-- What the loop leaves: a winner, or a tie if some later match is as good. -/
theorem verdict {rest : List (Match α ℚ)} (h : Listing score cs args (m :: rest)) :
    if 0 < (best .exact m 0 rest).2 then Tied score cs args
    else Wins score cs args (best .exact m 0 rest).1 := by
  obtain ⟨before, w, after, hparts, hbest, hbefore, hafter⟩ := best_parts m rest
  rw [hparts] at h
  have hw : w ∈ before ++ w :: after := List.mem_append_right _ List.mem_cons_self
  obtain ⟨hplace, haccess, hrates⟩ := (h.mem w).1 hw
  have hleast : ∀ d ∈ cs.eraseIdx w.index, ∀ r, Usable score args d r → w.score ≤ r := by
    intro d hd r hr
    obtain ⟨x, hx | hx, rfl⟩ := h.exists_other hd hr
    · exact (hbefore x hx).le
    · exact hafter x hx
  rw [hbest]
  split
  · rename_i hties
    obtain ⟨n, hn, hsame⟩ := List.countP_pos_iff.1 hties
    have hsame : n.score = w.score := of_decide_eq_true hsame
    have hother := h.usable (List.mem_append_right _ (List.mem_cons_of_mem _ hn))
    refine ⟨w.index, w.candidate, w.score, hplace, h.usable hw,
      ⟨n.candidate, h.candidate_mem_eraseIdx hn, hsame ▸ hother⟩, fun d hd r hr => ?_⟩
    obtain ⟨i, hi⟩ := List.mem_iff_getElem?.1 hd
    obtain ⟨hd, e, hd'⟩ := hr
    rcases List.mem_append.1 ((h.mem ⟨d, i, r, e⟩).2 ⟨hi, hd, hd'⟩) with hx | hx
    · exact (hbefore _ hx).le
    · rcases List.mem_cons.1 hx with rfl | hx
      · exact le_rfl
      · exact hafter _ hx
  · rename_i hties
    refine ⟨hplace, haccess, hrates, fun d hd q hq => ?_⟩
    obtain ⟨x, hx | hx, rfl⟩ := h.exists_other hd hq
    · exact hbefore x hx
    · have hne : ¬x.score = w.score := fun hsame =>
        hties (List.countP_pos_iff.2 ⟨x, hx, decide_eq_true hsame⟩)
      exact lt_of_le_of_ne (hafter x hx) (Ne.symm hne)

end Listing

/-- The reason of a fault, unless a candidate is beyond the rules. -/
def Fault.reason? : Fault → Option Reason
  | .none => some .undefinedName
  | .denied _ => some .accessDenied
  | .ambiguous _ => some .ambiguousMatch
  | .broken => Option.none

theorem refuses_iff {reason : Reason} : Refuses score cs args reason ↔
    ∃ fault, resolve .exact score cs args = .error fault ∧ fault.reason? = some reason := by
  refine exists_congr fun fault => and_congr_right fun _ => ?_
  cases fault <;> simp [Fault.failure, Fault.reason?]

/-- What a resolution gives: a match, or the reason of its failure. -/
def Gives (score : Ty → Ty → Int) (cs : List (Candidate α)) (args : List Ty) :
    Except Reason (Match α ℚ) → Prop
  | .ok m => resolve .exact score cs args = .ok m
  | .error reason => Refuses score cs args reason

theorem Gives.unique {x y : Except Reason (Match α ℚ)} (hx : Gives score cs args x)
    (hy : Gives score cs args y) :
    x = y := by
  have hnever : ∀ m reason, resolve .exact score cs args = .ok m →
      ¬Refuses score cs args reason := by
    rintro m reason hok ⟨fault, herror, -⟩
    rw [hok] at herror
    cases herror
  cases x with
  | ok m =>
    cases y with
    | ok n => exact congrArg _ (Except.ok.inj (Eq.trans (Eq.symm hx) hy))
    | error reason => exact absurd hy (hnever m reason hx)
  | error reason =>
    cases y with
    | ok n => exact absurd hx (hnever n reason hy)
    | error reason' =>
      obtain ⟨fault, hfault, hreason⟩ := refuses_iff.1 hx
      obtain ⟨fault', hfault', hreason'⟩ := refuses_iff.1 hy
      obtain rfl := Except.error.inj (hfault.symm.trans hfault')
      exact congrArg _ (Option.some.inj (hreason.symm.trans hreason'))

/-- Every resolution ends, and in the right way. -/
theorem exists_outcome (score : Ty → Ty → Int) (args : List Ty) (hcs : Declarable cs) :
    ∃ x, Gives score cs args x ∧ Outcome score cs args x := by
  obtain ⟨found, hfound, hmem⟩ := matches?_exact score args hcs
  have hlisting : Listing score cs args (found.filter (·.candidate.accessible)) := by
    refine ⟨(matches?_increasing hfound).filter _, fun x => ?_⟩
    rw [List.mem_filter, hmem, and_assoc, and_comm (b := x.candidate.accessible = true)]
  have hresolve := resolve.eq_1 .exact score cs args
  rw [hfound] at hresolve
  cases hfilter : found.filter (·.candidate.accessible) with
  | cons m rest =>
    rw [hfilter] at hlisting
    simp only [hfilter] at hresolve
    have hverdict := hlisting.verdict
    split at hverdict
    · rename_i hties
      rw [if_pos hties] at hresolve
      exact ⟨.error _, refuses_iff.2 ⟨_, hresolve, rfl⟩, .tied hverdict⟩
    · rename_i hties
      rw [if_neg hties] at hresolve
      exact ⟨.ok _, hresolve, .wins hverdict⟩
  | nil =>
    rw [hfilter] at hlisting
    simp only [hfilter] at hresolve
    have hentry : ∀ c ∈ cs, ∀ q e, Rates .exact score c args q e → ∃ i,
        (⟨c, i, q, e⟩ : Match α ℚ) ∈ found := by
      intro c hc q e hrates
      obtain ⟨i, hi⟩ := List.mem_iff_getElem?.1 hc
      exact ⟨i, (hmem _).2 ⟨hi, hrates⟩⟩
    cases found with
    | nil =>
      refine ⟨.error _, refuses_iff.2 ⟨_, hresolve, rfl⟩, .unmatched fun c hc ⟨q, e, hrates⟩ => ?_⟩
      obtain ⟨i, hi⟩ := hentry c hc q e hrates
      cases hi
    | cons x found =>
      have hx := (hmem x).1 List.mem_cons_self
      refine ⟨.error _, refuses_iff.2 ⟨_, hresolve, rfl⟩,
        .denied ⟨⟨x.candidate, List.mem_of_getElem? hx.1, _, _, hx.2⟩,
          fun c hc ⟨q, e, hrates⟩ => ?_⟩⟩
      obtain ⟨i, hi⟩ := hentry c hc q e hrates
      exact Bool.eq_false_iff.2 fun haccess =>
        absurd ((hlisting.mem _).2 ⟨((hmem _).1 hi).1, haccess, hrates⟩) List.not_mem_nil

theorem gives_iff (hcs : Declarable cs) {x : Except Reason (Match α ℚ)} :
    Gives score cs args x ↔ Outcome score cs args x := by
  obtain ⟨y, hgives, houtcome⟩ := exists_outcome score args hcs
  constructor
  · intro hx
    rwa [hx.unique hgives]
  · intro hx
    rwa [hx.unique hcs houtcome]

end Outcomes

section Order

variable {c : Candidate α} {i : Nat}

/-- The candidate at a place, before all the others. -/
theorem perm_cons_eraseIdx (hi : cs[i]? = some c) : cs.Perm (c :: cs.eraseIdx i) := by
  obtain ⟨hlt, rfl⟩ := List.getElem?_eq_some_iff.1 hi
  exact (List.getElem_cons_eraseIdx_perm hlt).symm

/-- A place in a list has a place in every permutation of it, beside the same others. -/
theorem exists_place_of_perm (h : cs.Perm ds) (hi : cs[i]? = some c) :
    ∃ j, ds[j]? = some c ∧ (cs.eraseIdx i).Perm (ds.eraseIdx j) := by
  obtain ⟨j, hj⟩ := List.mem_iff_getElem?.1 (h.mem_iff.1 (List.mem_of_getElem? hi))
  exact ⟨j, hj, ((perm_cons_eraseIdx hi).symm.trans (h.trans (perm_cons_eraseIdx hj))).cons_inv⟩

theorem Declarable.perm (h : cs.Perm ds) (hcs : Declarable cs) : Declarable ds :=
  fun c hc => hcs c (h.mem_iff.2 hc)

theorem Wins.perm (h : cs.Perm ds) (hm : Wins score cs args m) :
    ∃ j, Wins score ds args { m with index := j } := by
  obtain ⟨j, hj, hothers⟩ := exists_place_of_perm h hm.place
  exact ⟨j, hj, hm.accessible, hm.rates, fun d hd => hm.lowest d (hothers.mem_iff.2 hd)⟩

theorem Tied.perm (h : cs.Perm ds) (htied : Tied score cs args) : Tied score ds args := by
  obtain ⟨i, c, q, hi, hc, ⟨d, hd, hdq⟩, hmin⟩ := htied
  obtain ⟨j, hj, hothers⟩ := exists_place_of_perm h hi
  exact ⟨j, c, q, hj, hc, ⟨d, hothers.mem_iff.1 hd, hdq⟩, fun d hd => hmin d (h.mem_iff.2 hd)⟩

theorem Denied.perm (h : cs.Perm ds) (hdenied : Denied score cs args) : Denied score ds args := by
  obtain ⟨⟨c, hc, happlies⟩, hall⟩ := hdenied
  exact ⟨⟨c, h.mem_iff.1 hc, happlies⟩, fun d hd => hall d (h.mem_iff.2 hd)⟩

theorem Unmatched.perm (h : cs.Perm ds) (hunmatched : Unmatched score cs args) :
    Unmatched score ds args :=
  fun c hc => hunmatched c (h.mem_iff.2 hc)

/-- The conditions do not depend on the order. -/
theorem Outcome.perm (h : cs.Perm ds) {reason : Reason}
    (ho : Outcome score cs args (.error reason)) :
    Outcome score ds args (.error reason) := by
  cases ho with
  | tied htied => exact .tied (htied.perm h)
  | denied hdenied => exact .denied (hdenied.perm h)
  | unmatched hunmatched => exact .unmatched (hunmatched.perm h)

end Order

/-- A match is returned exactly for the candidate with the one lowest score among those that may be
used; the three reasons to refuse a call are a shared lowest score, no candidate that may be used
among those that take the arguments, and none that takes them. So the order of the candidates
changes neither the winner nor the reason. -/
theorem resolve_best (score : Ty → Ty → Int) (cs : List (Candidate α)) (args : List Ty)
    (hcs : Declarable cs) :
    (∀ m, resolve .exact score cs args = .ok m ↔ Wins score cs args m) ∧
      (Refuses score cs args .ambiguousMatch ↔ Tied score cs args) ∧
      (Refuses score cs args .accessDenied ↔ Denied score cs args) ∧
      (Refuses score cs args .undefinedName ↔ Unmatched score cs args) ∧
      ∀ ds, cs.Perm ds →
        (∀ m, resolve .exact score cs args = .ok m → ∃ j,
          resolve .exact score ds args = .ok { m with index := j }) ∧
          ∀ reason, Refuses score cs args reason ↔ Refuses score ds args reason := by
  have hok : ∀ {l : List (Candidate α)} (_ : Declarable l) m,
      resolve .exact score l args = .ok m ↔ Wins score l args m := fun hl m =>
    (gives_iff (x := .ok m) hl).trans ⟨fun | .wins h => h, .wins⟩
  have herror : ∀ {l : List (Candidate α)} (_ : Declarable l) reason,
      Refuses score l args reason ↔ Outcome score l args (.error reason) := fun hl reason =>
    gives_iff (x := .error reason) hl
  refine ⟨hok hcs, (herror hcs _).trans ⟨fun | .tied h => h, .tied⟩,
    (herror hcs _).trans ⟨fun | .denied h => h, .denied⟩,
    (herror hcs _).trans ⟨fun | .unmatched h => h, .unmatched⟩, fun ds hperm =>
      ⟨fun m hm => ?_, fun reason => ?_⟩⟩
  · obtain ⟨j, hj⟩ := ((hok hcs m).1 hm).perm hperm
    exact ⟨j, (hok (hcs.perm hperm) _).2 hj⟩
  · rw [herror hcs, herror (hcs.perm hperm)]
    exact ⟨.perm hperm, .perm hperm.symm⟩

/-- Two strings for two parameters win against two strings for the items of a slice. -/
theorem resolve_best_sum :
    Wins (fun a p => if a = p then 0 else -1)
      [⟨"Sum", [.slice .string], true, false, true, ()⟩,
        ⟨"Sum", [.string, .string], false, false, true, ()⟩]
      [.string, .string] ⟨⟨"Sum", [.string, .string], false, false, true, ()⟩, 1, 0, false⟩ := by
  refine ((resolve_best _ _ _ ?_).1 _).1 ?_
  · intro c hc
    simp only [List.mem_cons, List.not_mem_nil, or_false] at hc
    rcases hc with rfl | rfl
    · exact ⟨⟨fun _ => ⟨_, rfl⟩, nofun⟩, nofun⟩
    · exact ⟨⟨nofun, nofun⟩, nofun⟩
  · simp [resolve, matches?, fit, Candidate.taken, total, fitExpanded, Ty.element?,
      best, Scale.exact]

end Formulary.Overload
