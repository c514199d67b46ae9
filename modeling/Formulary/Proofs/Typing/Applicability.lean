import Mathlib.Data.List.Forall2
import Formulary.Typing.Overload
import Formulary.Typing.Conversion

/-!
# How candidates take arguments

A candidate takes arguments one for each of its parameters, or the last ones one by one as the items
of a slice. An extension that is called without arguments takes the value it is called on alone.
Each way has a score; what a candidate is found to fit is exactly one of these ways.

How well one type converts to another and what converts its values are found by two descents through
the same cases. They agree: a score is not negative exactly where there is a conversion. The one
case with arithmetic in it is that of widening, where the score is a difference of places on a
ladder, and no type widens to one that stands below it.
-/

namespace Formulary

namespace Ty

theorem rank_normal (t : Ty) : t.normal.rank = t.rank := by
  cases t with
  | int k => cases k <;> rfl
  | _ => rfl

/-- Types with the same normal form are the same or are both integers. -/
theorem normal_eq_cases {a b : Ty} (h : a.normal = b.normal) : a = b ∨ ∃ i j, a = .int i ∧
    b = .int j := by
  cases a with
  | int i =>
    cases b with
    | int j => exact .inr ⟨i, j, rfl, rfl⟩
    | _ => cases h
  | _ =>
    cases b with
    | int j => cases h
    | _ => exact .inl h

theorem rank_int_pos (k : IntKind) : 0 < (Ty.int k).rank := by
  cases k <;> decide

end Ty

namespace Typing

variable {host : Host} {ops : Operators} {source target : Ty}

/-- What widens to a type stands on the ladder, and not above it. -/
theorem rank_of_mem_widening (h : source ∈ widening target) : 0 < source.rank ∧
    source.rank ≤ target.rank := by
  have hrow : ∀ t ∈ widening target, 0 < t.rank ∧ t.rank ≤ target.rank := by
    cases target with
    | int k => cases k <;> decide
    | single | double | decimal => decide
    | _ => nofun
  exact hrow source h

theorem rank_of_widens (h : widens source target = true) (hne : source ≠ target) :
    0 < source.rank ∧ source.rank ≤ target.rank := by
  simp only [widens, Bool.or_eq_true, beq_iff_eq, hne, false_or, List.contains_iff_mem] at h
  rcases h with h | h
  · obtain rfl | ⟨i, j, rfl, rfl⟩ := Ty.normal_eq_cases h
    · exact absurd rfl hne
    · have hrank : (Ty.int i).rank = (Ty.int j).rank := by rw [← Ty.rank_normal, h, Ty.rank_normal]
      exact ⟨Ty.rank_int_pos i, Nat.le_of_eq hrank⟩
  · have hrank := rank_of_mem_widening h
    rwa [Ty.rank_normal, Ty.rank_normal] at hrank

theorem widenScore_nonneg (h : widens source target = true) (hne : source ≠ target) :
    0 ≤ widenScore source target := by
  obtain ⟨hpos, hle⟩ := rank_of_widens h hne
  rw [widenScore, if_neg (by simp; omega)]
  omega

theorem nullScore_nonneg (target : Ty) : 0 ≤ nullScore target := by
  unfold nullScore
  split
  · decide
  · split <;> decide

/-- One type converts to another exactly where the conversion has a score that is not negative. -/
theorem score_nonneg_iff (host : Host) (ops : Operators) (source target : Ty) :
    0 ≤ score host ops source target ↔ (implicit? host ops source target).isSome = true := by
  unfold score implicit?
  by_cases heq : source = target
  · simp [heq]
  · have heq' : ¬(source == target) = true := by simpa using heq
    rw [if_neg heq', if_neg heq']
    by_cases hnull : (source == .null) = true
    · rw [if_pos hnull, if_pos hnull]
      cases target.isNullable with
      | true => simpa using nullScore_nonneg target
      | false => simp
    · rw [if_neg hnull, if_neg hnull]
      cases huser : ops.implicit? source target with
      | some f => simp
      | none =>
        by_cases hwidens : widens source target = true
        · simpa [hwidens] using widenScore_nonneg hwidens heq
        · cases himplements : host.implements source target <;> simp [hwidens]

end Typing

end Formulary

namespace Formulary.Overload

variable {α σ : Type}

namespace Candidate

/-- What can be declared: a variadic candidate ends in a slice, and an extension has a parameter. -/
structure Regular (c : Candidate α) : Prop where
  variadic : c.variadic = true → ∃ t, c.params.getLast? = some (.slice t)
  extension : c.extension = true → c.params ≠ []

/-- An extension whose only parameter is variadic: the value it is called on leaves nothing to take
arguments. -/
def Hollow (c : Candidate α) : Prop := c.extension = true ∧ c.variadic = true ∧ c.params.length = 1

theorem Regular.taken_eq_nil {c : Candidate α} (h : c.Regular) (hvariadic : c.variadic = true) :
    c.taken = [] ↔ c.Hollow := by
  obtain ⟨t, ht⟩ := h.variadic hvariadic
  unfold taken Hollow
  cases hext : c.extension with
  | false =>
    have hne : c.params ≠ [] := by
      rintro hnil
      rw [hnil] at ht
      cases ht
    simp [hne]
  | true =>
    rcases hparams : c.params with _ | ⟨p, rest⟩
    · exact absurd hparams (h.extension hext)
    · simp [hvariadic, List.length_eq_zero_iff]

/-- What is left of the parameters of a variadic candidate still ends in a slice. -/
theorem Regular.taken_eq_concat {c : Candidate α} (h : c.Regular) (hvariadic : c.variadic = true)
    (hsome : c.taken ≠ []) : ∃ fixed t, c.taken = fixed ++ [Ty.slice t] := by
  obtain ⟨t, ht⟩ := h.variadic hvariadic
  have hlast : c.taken.getLast? = some (.slice t) := by
    unfold taken at hsome ⊢
    split
    · rename_i hext
      rw [if_pos hext] at hsome
      rw [List.getLast?_drop, if_neg, ht]
      exact fun hle => hsome (List.drop_eq_nil_iff.2 hle)
    · exact ht
  exact ⟨c.taken.dropLast, t, (List.dropLast_append_getLast? _ hlast).symm⟩

end Candidate

/-- Arguments that convert to parameters, one for each. -/
def Fits (score : Ty → Ty → Int) (args params : List Ty) : Prop :=
  List.Forall₂ (fun a p => 0 ≤ score a p) args params

/-- The sum of the scores of arguments for parameters. -/
def cost (score : Ty → Ty → Int) : List Ty → List Ty → Int
  | a :: args, p :: params => score a p + cost score args params
  | _, _ => 0

/-- A way in which a candidate takes arguments, with its score and whether trailing arguments come
one by one. They do so only if the arguments do not fit the parameters as they are. -/
inductive Rates (scale : Scale σ) (score : Ty → Ty → Int) (c : Candidate α)
    (args : List Ty) : σ → Bool → Prop
  | bare (hext : c.extension = true) (hone : c.params.length = 1) (hargs : args = []) :
      Rates scale score c args scale.bare false
  | direct (hargs : c.extension = true → args ≠ []) (hfits : Fits score args c.taken) :
    Rates scale score c args (scale.mean (cost score args c.taken) args.length) false
  | expanded {fixed front rest : List Ty} {t : Ty} (hvariadic : c.variadic = true)
      (hfits : ¬Fits score args c.taken)
    (htaken : c.taken = fixed ++ [Ty.slice t]) (hargs : args = front ++ rest)
    (hfront : Fits score front fixed) (hrest : ∀ a ∈ rest, 0 ≤ score a t) :
    Rates scale score c args
      (scale.penalty (scale.mean (cost score front fixed + cost score rest (rest.map fun _ => t))
        args.length)) true

/-- Whether a candidate takes arguments in some way. -/
def Applies (scale : Scale σ) (score : Ty → Ty → Int) (c : Candidate α) (args : List Ty) : Prop :=
  ∃ q expanded, Rates scale score c args q expanded

section Fit

variable {scale : Scale σ} {score : Ty → Ty → Int} {c : Candidate α} {args params : List Ty} {q : σ}
  {expanded : Bool}

/-- Arguments have a total if there is a parameter for each and they fit. -/
theorem total_eq_some (hlength : args.length = params.length) {t : Int} :
    total score args params = some t ↔ Fits score args params ∧ t = cost score args params := by
  induction args generalizing params t with
  | nil =>
    obtain rfl := List.length_eq_zero_iff.1 hlength.symm
    simp [total, Fits, cost, eq_comm]
  | cons a args ih =>
    rcases params with _ | ⟨p, params⟩
    · cases hlength
    · have ih := @ih params (Nat.succ.inj hlength)
      by_cases hs : score a p < 0
      · refine ⟨fun h => by simp [total, hs] at h, fun ⟨hfits, _⟩ => ?_⟩
        exact absurd (List.forall₂_cons.1 hfits).1 (Int.not_le.2 hs)
      · rw [total]
        simp only [hs, if_false, Option.map_eq_some_iff, ih]
        constructor
        · rintro ⟨u, ⟨hfits, rfl⟩, rfl⟩
          exact ⟨.cons (Int.not_lt.1 hs) hfits, rfl⟩
        · rintro ⟨hfits, rfl⟩
          exact ⟨_, ⟨(List.forall₂_cons.1 hfits).2, rfl⟩, rfl⟩

/-- The total of items for a slice. -/
theorem total_items {t : Ty} {n : Int} : total score args (args.map fun _ => t) = some n ↔
    (∀ a ∈ args, 0 ≤ score a t) ∧ n = cost score args (args.map fun _ => t) := by
  rw [total_eq_some (List.length_map _).symm]
  refine and_congr_left fun _ => ?_
  rw [Fits, List.forall₂_map_right_iff, List.forall₂_same]

/-- The arguments fit the parameters as they are. -/
theorem direct_eq_some {t : Int} : (if args.length == params.length then total score args params
    else none) = some t ↔
    Fits score args params ∧ t = cost score args params := by
  by_cases hlength : args.length = params.length
  · rw [if_pos (beq_iff_eq.2 hlength), total_eq_some hlength]
  · rw [if_neg (by simpa using hlength)]
    exact ⟨nofun, fun h => absurd h.1.length_eq hlength⟩

/-- Trailing arguments are taken as the items of the slice at the end. -/
theorem fitExpanded_eq_yes {fixed : List Ty} {t : Ty} :
    fitExpanded scale score (fixed ++ [Ty.slice t]) args = .yes q expanded ↔
      ∃ front rest, args = front ++ rest ∧ Fits score front fixed ∧ (∀ a ∈ rest, 0 ≤ score a t) ∧
        q = scale.penalty
          (scale.mean (cost score front fixed + cost score rest (rest.map fun _ => t))
            args.length) ∧
        expanded = true := by
  have hfixed : (fixed ++ [Ty.slice t]).length - 1 = fixed.length := by simp
  simp only [fitExpanded, List.getLast?_concat, hfixed, List.take_left', Ty.element?]
  by_cases hshort : args.length < fixed.length
  · rw [if_pos hshort]
    refine ⟨nofun, ?_⟩
    rintro ⟨front, rest, rfl, hfront, -⟩
    have hlength := hfront.length_eq
    rw [List.length_append] at hshort
    omega
  · have htake : (args.take fixed.length).length = fixed.length :=
      List.length_take_of_le (Nat.not_lt.1 hshort)
    rw [if_neg hshort]
    constructor
    · intro h
      cases hfront : total score (args.take fixed.length) fixed with
      | none =>
        rw [hfront] at h
        cases h
      | some m =>
        cases hrest : total score (args.drop fixed.length)
          ((args.drop fixed.length).map fun _ => t) with
        | none =>
          rw [hfront, hrest] at h
          cases h
        | some n =>
          simp only [hfront, hrest, Fit.yes.injEq] at h
          obtain ⟨hfits, rfl⟩ := (total_eq_some htake).1 hfront
          obtain ⟨hitems, rfl⟩ := total_items.1 hrest
          exact ⟨_, _, (List.take_append_drop fixed.length args).symm, hfits, hitems,
            h.1.symm, h.2.symm⟩
    · rintro ⟨front, rest, rfl, hfits, hitems, rfl, rfl⟩
      have hlength : front.length = fixed.length := hfits.length_eq
      rw [← hlength, List.take_left, List.drop_left, (total_eq_some hlength).2 ⟨hfits, rfl⟩,
        total_items.2 ⟨hitems, rfl⟩]

theorem fitExpanded_ne_broken {fixed : List Ty} {t : Ty} :
    fitExpanded scale score (fixed ++ [Ty.slice t]) args ≠ .broken := by
  simp only [fitExpanded, List.getLast?_concat, Ty.element?]
  repeat' split
  all_goals nofun

/-- An extension that is called without arguments and has no parameter left for any. -/
theorem isBare_iff (h : c.Regular) : (c.extension && c.taken.isEmpty && args.isEmpty) = true ↔
    c.extension = true ∧ c.params.length = 1 ∧ args = [] := by
  simp only [Bool.and_eq_true, List.isEmpty_iff, and_assoc]
  refine and_congr_right fun hext => and_congr_left fun _ => ?_
  rcases hparams : c.params with _ | ⟨p, rest⟩
  · exact absurd hparams (h.extension hext)
  · simp [Candidate.taken, hext, hparams, List.length_eq_zero_iff]

/-- What fits a candidate that is no bare extension: the arguments as they are, or trailing ones one
by one. -/
theorem fit_eq (h : c.Regular) (hbare : ¬(c.extension = true ∧ c.params.length = 1 ∧ args = [])) :
    fit scale score c args =
      match (if args.length == c.taken.length then total score args c.taken else none) with
      | some t => .yes (scale.mean t args.length) false
      | none => if c.variadic then fitExpanded scale score c.taken args else .no := by
  have hparams : (c.extension && c.params.isEmpty) = false := by
    rw [Bool.and_eq_false_imp]
    exact fun hext => by simpa using h.extension hext
  rw [fit, if_neg (by simp [hparams])]
  exact if_neg (mt (isBare_iff h).1 hbare)

/-- A candidate fits arguments exactly in the ways it takes them. -/
theorem fit_eq_yes (h : c.Regular) : fit scale score c args = .yes q expanded ↔
    Rates scale score c args q expanded := by
  by_cases hbare : c.extension = true ∧ c.params.length = 1 ∧ args = []
  · have hfit : fit scale score c args = .yes scale.bare false := by
      have hparams : (c.extension && c.params.isEmpty) = false := by
        simp [List.isEmpty_eq_false_iff, h.extension hbare.1]
      rw [fit, if_neg (by simp [hparams]), if_pos ((isBare_iff h).2 hbare)]
    have htaken : c.taken = [] := by
      have hempty := (Bool.and_eq_true_iff.1 (Bool.and_eq_true_iff.1 ((isBare_iff h).2 hbare)).1).2
      exact List.isEmpty_iff.1 hempty
    rw [hfit]
    constructor
    · rintro ⟨⟩
      exact .bare hbare.1 hbare.2.1 hbare.2.2
    · intro hrates
      cases hrates with
      | bare => rfl
      | direct hargs => exact absurd hbare.2.2 (hargs hbare.1)
      | expanded _ _ hconcat => simp [htaken] at hconcat
  · rw [fit_eq h hbare]
    by_cases hfits : Fits score args c.taken
    · rw [direct_eq_some.2 ⟨hfits, rfl⟩]
      constructor
      · rintro ⟨⟩
        refine .direct (fun hext hnil => hbare ⟨hext, ?_, hnil⟩) hfits
        subst hnil
        have htaken : c.taken = [] := List.forall₂_nil_left_iff.1 hfits
        have hempty : (c.extension && c.taken.isEmpty && ([] : List Ty).isEmpty) = true := by
          simp [hext, htaken]
        exact ((isBare_iff h).1 hempty).2.1
      · intro hrates
        cases hrates with
        | bare hext hone hargs => exact absurd ⟨hext, hone, hargs⟩ hbare
        | direct => rfl
        | expanded _ hnot => exact absurd hfits hnot
    · have hnone :
          (if args.length == c.taken.length then total score args c.taken else none) = none :=
        Option.eq_none_iff_forall_not_mem.2 fun t ht => hfits (direct_eq_some.1 ht).1
      rw [hnone]
      dsimp only
      constructor
      · intro hyes
        split at hyes
        · rename_i hvariadic
          have htaken : c.taken ≠ [] := by
            intro hnil
            rw [hnil] at hyes
            cases hyes
          obtain ⟨fixed, t, hconcat⟩ := h.taken_eq_concat hvariadic htaken
          rw [hconcat] at hyes
          obtain ⟨front, rest, hargs, hfront, hrest, rfl, rfl⟩ := fitExpanded_eq_yes.1 hyes
          exact .expanded hvariadic hfits hconcat hargs hfront hrest
        · cases hyes
      · intro hrates
        cases hrates with
        | bare hext hone hargs => exact absurd ⟨hext, hone, hargs⟩ hbare
        | direct _ hyes => exact absurd hyes hfits
        | expanded hvariadic _ hconcat hargs hfront hrest =>
          rw [if_pos hvariadic, hconcat]
          exact fitExpanded_eq_yes.2 ⟨_, _, hargs, hfront, hrest, rfl, rfl⟩

/-- It is beyond the rules only for an extension whose one parameter is variadic, called with
arguments. -/
theorem fit_eq_broken (h : c.Regular) : fit scale score c args = .broken ↔
    c.Hollow ∧ args ≠ [] := by
  constructor
  · intro hbroken
    have hbare : ¬(c.extension = true ∧ c.params.length = 1 ∧ args = []) := by
      intro hbare
      rw [(fit_eq_yes h).2 (.bare hbare.1 hbare.2.1 hbare.2.2)] at hbroken
      cases hbroken
    rw [fit_eq h hbare] at hbroken
    split at hbroken
    · cases hbroken
    · split at hbroken
      · rename_i hvariadic
        have htaken : c.taken = [] := by
          by_contra hne
          obtain ⟨fixed, t, hconcat⟩ := h.taken_eq_concat hvariadic hne
          rw [hconcat] at hbroken
          exact fitExpanded_ne_broken hbroken
        have hhollow := (h.taken_eq_nil hvariadic).1 htaken
        exact ⟨hhollow, fun hnil => hbare ⟨hhollow.1, hhollow.2.2, hnil⟩⟩
      · cases hbroken
  · rintro ⟨hhollow, hargs⟩
    have htaken := (h.taken_eq_nil hhollow.2.1).2 hhollow
    have hlength : ¬(args.length == 0) = true := by simpa using hargs
    rw [fit_eq h fun hbare => hargs hbare.2.2, htaken, List.length_nil, if_neg hlength,
      if_pos hhollow.2.1]
    rfl

/-- Each of several arguments that fit has a parameter in its place and converts to it. -/
theorem Fits.getElem? (h : Fits score args params) {i : Nat} {a : Ty} (ha : args[i]? = some a) :
    ∃ p, params[i]? = some p ∧ 0 ≤ score a p := by
  induction h generalizing i with
  | nil => cases ha
  | @cons b p args params hscore _ ih =>
    cases i with
    | zero =>
      cases ha
      exact ⟨p, rfl, hscore⟩
    | succ i => exact ih ha

/-- Arguments that are taken one by one at the end are rated by the type of the items, the ones
before by their own parameters. -/
theorem fitExpanded_converts (h : fitExpanded scale score c.taken args = .yes q expanded)
    {i : Nat} {a : Ty} (ha : args[i]? = some a) (k : Nat) :
    ∃ t, (⟨c, k, q, expanded⟩ : Match α σ).paramType? i = some t ∧ 0 ≤ score a t := by
  unfold fitExpanded at h
  split at h
  · cases h
  · rename_i last hlast
    dsimp only at h
    split at h
    · cases h
    · rename_i hlong
      split at h
      · cases h
      · rename_i front hfront
        split at h
        · cases h
        · rename_i element helement
          split at h
          · cases h
          · rename_i rest hrest
            cases h
            have htaken : 0 < c.taken.length := List.length_pos_of_mem (List.mem_of_getLast? hlast)
            simp only [Match.paramType?, Bool.true_and, decide_eq_true_eq]
            split
            · rename_i hi
              have hmem : a ∈ args.drop (c.taken.length - 1) := by
                refine List.mem_of_getElem? (i := i - (c.taken.length - 1)) ?_
                rw [List.getElem?_drop, ← ha]
                congr 1
                omega
              exact ⟨element, by rw [hlast]; exact helement, (total_items.1 hrest).1 a hmem⟩
            · rename_i hi
              have hlength : (args.take (c.taken.length - 1)).length =
                  (c.taken.take (c.taken.length - 1)).length := by
                rw [List.length_take, List.length_take]
                omega
              have hbefore : (args.take (c.taken.length - 1))[i]? = some a := by
                rw [List.getElem?_take_of_lt (by omega), ha]
              obtain ⟨p, hp, hscore⟩ := ((total_eq_some hlength).1 hfront).1.getElem? hbefore
              rw [List.getElem?_take_of_lt (by omega)] at hp
              exact ⟨p, hp, hscore⟩

/-- Whatever way a candidate is found to fit, each argument has a type that it is converted to, and
is rated by it. -/
theorem fit_converts (h : fit scale score c args = .yes q expanded) {i : Nat} {a : Ty}
    (ha : args[i]? = some a) (k : Nat) :
    ∃ t, (⟨c, k, q, expanded⟩ : Match α σ).paramType? i = some t ∧ 0 ≤ score a t := by
  unfold fit at h
  dsimp only at h
  split at h
  · cases h
  · split at h
    · rename_i hbare
      have hnil : args = [] := List.isEmpty_iff.1 (Bool.and_eq_true_iff.1 hbare).2
      subst hnil
      cases ha
    · split at h
      · rename_i t hdirect
        cases h
        obtain ⟨p, hp, hscore⟩ := (direct_eq_some.1 hdirect).1.getElem? ha
        exact ⟨p, hp, hscore⟩
      · split at h
        · exact fitExpanded_converts h ha k
        · cases h

end Fit

end Formulary.Overload
