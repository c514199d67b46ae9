import Formulary.Proofs.Build.Enclosed
import Formulary.Proofs.Element.Indexing
import Formulary.Proofs.Typing.Comparison

/-!
# How operands are compared

Overloads are sought through the type of one operand before the other, and a comparison of texts,
numbers, enumerations or objects only after them. Where the host has no overloads and conversions of
its own for the types, what comes of it does not depend on the order: an operator compiles exactly
if there is a comparison for the two types, and is this comparison on the operands converted to its
type (`compare_eq`). So the comparisons of one kind compile together, in either order, and their
values agree (`comparisons_coherent`).
-/

namespace Formulary

/-- The host has no overloads of an operator for two types, and no conversions from either. -/
structure Scope.Quiet (s : Scope) (op : Operator) (t u : Ty) : Prop where
  overloads : s.operators.binaryOn op t u = []
  left : ∀ v, s.operators.implicit? t v = none
  right : ∀ v, s.operators.implicit? u v = none

/-- An element that is converted is one of the type already, or the conversion is written around
it. -/
theorem Scope.implicit_eq_ok {s : Scope} {e e' : Element} {t : Ty} : s.implicit e t = .ok e' ↔
    e.type = t ∧ e' = e ∨ e.type ≠ t ∧
      ∃ how, Typing.implicit? s.host s.operators e.type t = some how ∧
        e' = .convert "conv" how t e := by
  unfold implicit
  by_cases hsame : e.type = t
  · simp [hsame, eq_comm]
  · rw [if_neg (by simpa using hsame)]
    cases Typing.implicit? s.host s.operators e.type t with
    | none => simp [hsame, mismatch, refused]
    | some how => simp [hsame, eq_comm]

theorem Scope.quiet_of_empty {s : Scope} (h : s.operators = {}) (op : Operator) (t u : Ty) :
    s.Quiet op t u := by
  refine ⟨?_, fun v => ?_, fun v => ?_⟩ <;> rw [h] <;> rfl

namespace Build

open Overload (Candidate)

variable {s : Scope} {op : Operator} {l r : Element} {t u : Ty}

/-- The functions among candidates that are numbered and filtered by their parameters. -/
theorem map_filter_candidates (op : Operator) (fns : List Function) (p : List Ty → Bool) :
    ((fns.zipIdx.map (overloadCandidate op)).filter fun c => p c.params).map (·.payload.1) =
      fns.filter fun f => p f.signature.params := by
  rw [List.filter_map, List.map_map]
  have hfst : (fns.zipIdx.map Prod.fst).filter (fun f => p f.signature.params) =
      fns.filter fun f => p f.signature.params := by
    rw [List.zipIdx_map_fst]
  rw [← hfst, List.filter_map]
  rfl

/-- The built-in overloads of a comparison. -/
theorem binaryOn_comparison (hop : op.isComparison = true) (t u : Ty) :
    Builtin.operators.binaryOn op t u = (Builtin.ordered.filter fun v => v == t || v == u).map
      (Builtin.comparison op) := by
  have hcomparisons : Builtin.operators.binary.filter (·.1 == op) = Builtin.comparisons op := by
    cases op with
    | equal | notEqual | less | lessEqual | greater | greaterEqual => rfl
    | _ => cases hop
  have hboth : ∀ v, ((Builtin.comparison op v).signature.params.any fun p => p == t || p == u) =
      (v == t || v == u) := by
    intro v
    simp [Builtin.comparison, Builtin.two]
  simp only [Operators.binaryOn, Bool.and_comm (_ == op)]
  rw [← List.filter_filter, hcomparisons, Builtin.comparisons_eq, List.filter_map, List.map_map]
  exact congrArg (List.map (Builtin.comparison op)) (List.filter_congr fun v _ => hboth v)

/-- Through a type of an operand at most one of them is found. -/
theorem filter_comparison (hop : op.isComparison = true) {v : Ty} (hv : v = t ∨ v = u) :
    ((Builtin.operators.binaryOn op t u).filter fun f => f.signature.params.contains v) =
      if v ∈ Builtin.ordered then [Builtin.comparison op v] else [] := by
  have hboth : ∀ w, (Builtin.comparison op w).signature.params.contains v = (w == v) := by
    intro w
    by_cases h : w = v
    · simp [Builtin.comparison, Builtin.two, h]
    · simp [Builtin.comparison, Builtin.two, h, Ne.symm h]
  have hfilter : (Builtin.ordered.filter fun w => w == v && (w == t || w == u)) =
      Builtin.ordered.filter (· == v) := by
    refine List.filter_congr fun w _ => ?_
    by_cases h : w = v
    · subst h
      simpa using hv
    · simp [h]
  rw [binaryOn_comparison hop, List.filter_map, List.filter_filter]
  simp only [Function.comp_def, hboth, hfilter, List.filter_beq, List.map_replicate]
  have hone : ∀ w ∈ Builtin.ordered, Builtin.ordered.count w = 1 := by decide
  by_cases hmem : v ∈ Builtin.ordered
  · rw [if_pos hmem, hone v hmem]
    rfl
  · rw [if_neg hmem, List.count_eq_zero_of_not_mem hmem]
    rfl

/-- A conversion to a type with built-in comparisons has a score where there is widening, unless the
host has one. -/
theorem score_ordered {v : Ty} (hv : v ∈ Builtin.ordered)
    (huser : s.operators.implicit? t v = none) :
    0 ≤ s.score t v ↔ Typing.widens t v = true := by
  rw [Scope.score, Typing.score_nonneg_iff, Typing.isSome_implicit?_ordered hv huser]

/-- Two operands fit two parameters if both convert to them. -/
theorem total_pair (score : Ty → Ty → Int) (t u v w : Ty) : Overload.total score [t, u] [v, w] =
    if 0 ≤ score t v ∧ 0 ≤ score u w then some (score t v + (score u w + 0)) else none := by
  simp only [Overload.total]
  by_cases ht : score t v < 0
  · rw [if_pos ht, if_neg (by omega)]
  · by_cases hu : score u w < 0
    · rw [if_neg ht, if_pos hu, if_neg (by omega)]
      rfl
    · rw [if_neg ht, if_neg hu, if_pos (by omega)]
      rfl

/-- A comparison takes two operands by the total of their conversions. -/
theorem fit_comparison (op : Operator) (i : Nat) (t u v : Ty) (score : Ty → Ty → Int) :
    Overload.fit Overload.Scale.double score (overloadCandidate op (Builtin.comparison op v, i))
      [t, u] =
      (Overload.total score [t, u] [v, v]).elim .no fun n =>
      .yes (Overload.Scale.double.mean n 2) false := by
  have htaken : (overloadCandidate op (Builtin.comparison op v, i)).taken = [v, v] := rfl
  have hplain : (overloadCandidate op (Builtin.comparison op v, i)).extension = false := rfl
  have hfixed : (overloadCandidate op (Builtin.comparison op v, i)).variadic = false := rfl
  simp only [Overload.fit, htaken, hplain, hfixed, Bool.false_and, Bool.false_eq_true, if_false,
    List.length_cons, List.length_nil, beq_self_eq_true, if_true]
  cases Overload.total score [t, u] [v, v] <;> rfl

/-- One candidate for two operands is chosen if both convert to its parameters. -/
theorem resolve_comparison (entry : Function × Nat) {v : Ty}
    (hentry : entry.1 = Builtin.comparison op v) (score : Ty → Ty → Int) :
    Overload.resolve Overload.Scale.double score [overloadCandidate op entry] [t, u] =
      if 0 ≤ score t v ∧ 0 ≤ score u v then
        .ok ⟨overloadCandidate op entry, 0, Overload.Scale.double.mean
          (score t v + (score u v + 0)) 2, false⟩
      else .error .none := by
  obtain ⟨f, i⟩ := entry
  obtain rfl : f = _ := hentry
  have hfit := fit_comparison op i t u v score
  rw [total_pair] at hfit
  by_cases h : 0 ≤ score t v ∧ 0 ≤ score u v
  · rw [if_pos h] at hfit ⊢
    exact Overload.resolve_singleton hfit rfl
  · rw [if_neg h] at hfit ⊢
    simp only [Overload.resolve, Overload.matches?, hfit]
    rfl

/-- What is found through the type of an operand: the built-in comparison of this type, if both
operands widen to it. -/
theorem overloadThrough?_comparison (hop : op.isComparison = true)
    (hquiet : s.Quiet op t u) {v : Ty} (hv : v = t ∨ v = u) :
    ∃ found,
      overloadThrough? s op ((Builtin.operators.binaryOn op t u).zipIdx.map (overloadCandidate op))
        [t, u] v = .ok found ∧
      found.map (·.candidate.payload.1) =
        if v ∈ Builtin.ordered ∧ Typing.widens t v ∧ Typing.widens u v then
          some (Builtin.comparison op v) else none := by
  have hnone : Overload.resolve Overload.Scale.double s.score
    ([] : List (Candidate (Function × Nat))) [t, u] =
      .error .none := rfl
  have hdeclared := map_filter_candidates op (Builtin.operators.binaryOn op t u) fun ps =>
    ps.contains v
  rw [filter_comparison hop hv] at hdeclared
  unfold overloadThrough?
  by_cases hmem : v ∈ Builtin.ordered
  · rw [if_pos hmem] at hdeclared
    obtain ⟨c, hc, hpayload⟩ := List.map_eq_singleton_iff.1 hdeclared
    have hfound := List.mem_filter.1 (hc ▸ List.mem_singleton_self c)
    obtain ⟨entry, -, rfl⟩ := List.mem_map.1 hfound.1
    have hdeclares : ∀ v ∈ Builtin.ordered, declaresOverloads v = true := by decide
    simp only [hdeclares v hmem, if_true, hc, resolve_comparison entry hpayload,
      score_ordered hmem (hquiet.left v), score_ordered hmem (hquiet.right v)]
    by_cases h : Typing.widens t v = true ∧ Typing.widens u v = true
    · simp only [h, hmem, if_true, and_self]
      exact ⟨_, rfl, congrArg some hpayload⟩
    · simp only [h, if_false, and_false]
      exact ⟨none, rfl, rfl⟩
  · rw [if_neg hmem] at hdeclared
    have hempty := List.map_eq_nil_iff.1 hdeclared
    simp only [hempty, ite_self, hnone, hmem, false_and, if_false]
    exact ⟨none, rfl, rfl⟩

/-- Overloads found through two types of which at most one has any. -/
theorem overload?_pair {ops : Operators} {x y : Option (Overload.Match (Function × Nat) Float)}
    (ht : overloadThrough? s op ((ops.binaryOn op t u).zipIdx.map (overloadCandidate op))
      [t, u] t = .ok x)
    (hu : overloadThrough? s op ((ops.binaryOn op t u).zipIdx.map (overloadCandidate op))
      [t, u] u = .ok y)
    (hone : t ≠ u → x = none ∨ y = none) :
    overload? s op ops [t, u] = .ok ((x.or y).map (·.candidate.payload.1)) := by
  unfold overload?
  by_cases h : t = u
  · subst h
    obtain rfl : x = y := Except.ok.inj (ht.symm.trans hu)
    have hargs : [t, t].eraseDups = [t] := by simp [List.eraseDups_cons]
    simp only [hargs, List.mapM_cons, List.mapM_nil, ht]
    cases x <;> rfl
  · have hargs : [t, u].eraseDups = [t, u] := by simp [List.eraseDups_cons, Ne.symm h]
    simp only [hargs, List.mapM_cons, List.mapM_nil, ht, hu]
    rcases hone h with rfl | rfl
    · cases y <;> rfl
    · cases x <;> rfl

/-- Where the host has no overloads, a comparison has the built-in one for the type that both
operands widen to. -/
theorem anyOverload?_comparison (hop : op.isComparison = true) (hquiet : s.Quiet op t u) :
    anyOverload? s op [t, u] = .ok ((Typing.ordered? t u).map (Builtin.comparison op)) := by
  have hhost : overload? s op s.operators [t, u] = .ok none := by
    have hthrough : ∀ v, overloadThrough? s op
      ((s.operators.binaryOn op t u).zipIdx.map (overloadCandidate op)) [t, u] v =
        .ok none := by
      intro v
      rw [hquiet.overloads]
      unfold overloadThrough?
      simp only [List.zipIdx_nil, List.map_nil, List.filter_nil, ite_self]
      rfl
    exact overload?_pair (hthrough t) (hthrough u) fun _ => .inl rfl
  obtain ⟨x, hx, hxs⟩ := overloadThrough?_comparison hop hquiet (.inl rfl)
  obtain ⟨y, hy, hys⟩ := overloadThrough?_comparison hop hquiet (.inr rfl)
  have hserves : ∀ {v : Ty} {z : Option (Overload.Match (Function × Nat) Float)}, v = t ∨ v = u →
      (z.map (·.candidate.payload.1) = if v ∈ Builtin.ordered ∧ Typing.widens t v ∧
        Typing.widens u v then
        some (Builtin.comparison op v) else none) →
      z = none ∧ Typing.ordered? t u ≠ some v ∨
        z.map (·.candidate.payload.1) = some (Builtin.comparison op v) ∧
          Typing.ordered? t u = some v := by
    intro v z hv hz
    split at hz
    · rename_i h
      exact .inr ⟨hz, Typing.ordered?_eq_some_iff.2 ⟨h.1, hv, h.2⟩⟩
    · rename_i h
      refine .inl ⟨Option.map_eq_none_iff.1 hz, fun hsome => h ?_⟩
      obtain ⟨hmem, -, hwidens⟩ := Typing.ordered?_eq_some_iff.1 hsome
      exact ⟨hmem, hwidens⟩
  have hbuiltin : overload? s op Builtin.operators [t, u] =
      .ok ((Typing.ordered? t u).map (Builtin.comparison op)) := by
    rcases hserves (.inl rfl) hxs with ⟨rfl, hx'⟩ | ⟨hxs, hx'⟩
    · rw [overload?_pair hx hy fun _ => .inl rfl, Option.none_or]
      rcases hserves (.inr rfl) hys with ⟨rfl, hy'⟩ | ⟨hys, hy'⟩
      · cases h : Typing.ordered? t u with
        | none => rfl
        | some v =>
          obtain ⟨-, rfl | rfl, -⟩ := Typing.ordered?_eq_some_iff.1 h
          · exact absurd h hx'
          · exact absurd h hy'
      · rw [hys, hy']
        rfl
    · have hone : t ≠ u → x = none ∨ y = none := by
        intro hne
        rcases hserves (.inr rfl) hys with ⟨hnone, -⟩ | ⟨-, hy'⟩
        · exact .inr hnone
        · exact absurd (Option.some.inj (hx'.symm.trans hy')) hne
      rw [overload?_pair hx hy hone, hx']
      cases x with
      | none => cases hxs
      | some m => exact congrArg Except.ok hxs
  rw [anyOverload?, hhost]
  exact hbuiltin

/-- An element converted to the type that a comparison asks for, if it asks for one. -/
def operand (s : Scope) (e : Element) : Option Ty → Except Failure Element
  | some t => s.implicit e t
  | none => .ok e

/-- An element of a type that widens to another is converted to it, unless the host has a conversion
of its own. -/
theorem exists_implicit (huser : ∀ v, s.operators.implicit? l.type v = none)
    (h : Typing.widens l.type t = true) :
    ∃ l', s.implicit l t = .ok l' := by
  by_cases hsame : l.type = t
  · exact ⟨l, Scope.implicit_eq_ok.2 (.inl ⟨hsame, rfl⟩)⟩
  · have hnull : ¬(l.type == .null) = true := by
      intro hnull
      have hrank := (Typing.rank_of_widens h hsame).1
      rw [eq_of_beq hnull] at hrank
      exact absurd hrank (by decide)
    have hhow : Typing.implicit? s.host s.operators l.type t = some (some (.numeric t)) := by
      rw [Typing.implicit?, if_neg (by simpa using hsame), if_neg hnull, huser t]
      exact if_pos h
    exact ⟨_, Scope.implicit_eq_ok.2 (.inr ⟨hsame, _, hhow, rfl⟩)⟩

/-- Both operands converted to the type of a comparison. -/
theorem exists_operands (hquiet : s.Quiet op l.type r.type) (hl : Typing.widens l.type t = true)
    (hr : Typing.widens r.type t = true) : ∃ l' r', s.implicit l t = .ok l' ∧
    s.implicit r t = .ok r' := by
  obtain ⟨l', hl'⟩ := exists_implicit hquiet.left hl
  obtain ⟨r', hr'⟩ := exists_implicit hquiet.right hr
  exact ⟨l', r', hl', hr'⟩

/-- A comparison compiles if and only if there is one for the types, and then it is the operation on
the operands converted to its type. -/
theorem compare_eq (hop : op.isComparison = true) (hquiet : s.Quiet op l.type r.type) :
    match Typing.comparison? s.host op.isEquality l.type r.type with
    | none => compare s op l r = unfit op l r
    | some c => ∃ l' r', operand s l c.operand? = .ok l' ∧ operand s r c.operand? = .ok r' ∧
        compare s op l r = .ok (.binary (c.operation s.options.ignoreCase op) .bool l' r') := by
  unfold Typing.comparison? compare
  by_cases hstring : (l.type == .string && r.type == .string) = true
  · rw [if_pos hstring, if_pos hstring]
    cases op.isEquality with
    | true => exact ⟨l, r, rfl, rfl, rfl⟩
    | false => rfl
  rw [if_neg hstring, if_neg hstring]
  cases hordered : Typing.ordered? l.type r.type with
  | some t =>
    obtain ⟨-, -, hl, hr⟩ := Typing.ordered?_eq_some_iff.1 hordered
    obtain ⟨l', r', hl', hr'⟩ := exists_operands hquiet hl hr
    have hfound : overloadedBinary? s op l r =
        .ok (some (.binary (.overload op (Builtin.comparison op t)) .bool l' r')) := by
      rw [overloadedBinary?, anyOverload?_comparison hop hquiet, hordered]
      show (do
        let l ← s.implicit l t
        let r ← s.implicit r t
        Except.ok (some (Element.binary (.overload op (Builtin.comparison op t)) .bool l r))) = _
      rw [hl', hr']
      rfl
    rw [hfound]
    exact ⟨l', r', hl', hr', rfl⟩
  | none =>
    have hnone : overloadedBinary? s op l r = .ok none := by
      rw [overloadedBinary?, anyOverload?_comparison hop hquiet, hordered]
      rfl
    rw [hnone]
    cases hnumbers : Typing.operandType? l.type r.type with
    | some t =>
      obtain ⟨hl, hr⟩ := Typing.widens_operandType? hnumbers
      obtain ⟨l', r', hl', hr'⟩ := exists_operands hquiet hl hr
      refine ⟨l', r', hl', hr', ?_⟩
      simp only [both, hl', hr']
      rfl
    | none =>
      cases op.isEquality with
      | true =>
        cases areComparable s.host l.type r.type with
        | true => exact ⟨l, r, rfl, rfl, rfl⟩
        | false => rfl
      | false =>
        cases l.type == r.type && l.type.isEnum with
        | true => exact ⟨l, r, rfl, rfl, rfl⟩
        | false => rfl

end Build

/-- A conversion that is none of the host's gives a value or fails, and leaves the tally as it
is. -/
theorem Conversion.run_apply {c : Conversion} (hown : ∀ f, c ≠ .user f) (host : Host) (v : Value) :
    ∃ result, ∀ tally, (c.apply host v).run tally = (result, tally) := by
  have hnumeric : ∀ t w, ∃ result, ∀ tally, (convertNumeric t w).run tally = (result, tally) := by
    intro t w
    unfold convertNumeric
    split
    · split <;> exact ⟨_, fun _ => rfl⟩
    · split <;> exact ⟨_, fun _ => rfl⟩
    · exact ⟨_, fun _ => rfl⟩
  cases c with
  | nullTo t => exact ⟨_, fun _ => rfl⟩
  | numeric t => exact hnumeric t v
  | checked t =>
    simp only [apply]
    split
    · split
      · exact ⟨_, fun _ => rfl⟩
      · exact hnumeric t v
    · exact ⟨_, fun _ => rfl⟩
  | enum t =>
    simp only [apply]
    split
    · exact ⟨_, fun _ => rfl⟩
    · split
      · exact ⟨_, fun _ => rfl⟩
      · exact hnumeric t _
  | assert t =>
    simp only [apply]
    split
    · split <;> exact ⟨_, fun _ => rfl⟩
    · split <;> exact ⟨_, fun _ => rfl⟩
  | user f => exact absurd rfl (hown f)

namespace Build

section Evaluation

variable {s : Scope} {l r l' r' : Element} {env : Environment} {a b v : Value}
  {x y : Except Failure Value}
  {tally tally₁ tally₂ tally' : Tally} {last : Option Value}

/-- What becomes of the value of an operand depends on the value alone, unless the host has
conversions for its type. -/
theorem exists_run_operand (huser : ∀ v, s.operators.implicit? l.type v = none) {target : Option Ty}
    (h : operand s l target = .ok l') (env : Environment) : ∃ become : Value → Except Failure Value,
      ∀ v tally tally', l.Yields env v tally tally' → ∀ last,
        (l'.eval env last).run tally = (become v, tally') := by
  have hkept : ∀ v tally tally', l.Yields env v tally tally' → ∀ last,
      (l.eval env last).run tally = (.ok v, tally') :=
    fun _ _ _ hv => hv
  cases target with
  | none =>
    cases h
    exact ⟨.ok, hkept⟩
  | some t =>
    rcases Scope.implicit_eq_ok.1 h with ⟨-, rfl⟩ | ⟨-, how, hhow, rfl⟩
    · exact ⟨.ok, hkept⟩
    cases how with
    | none =>
      refine ⟨.ok, fun v tally tally' hv last => ?_⟩
      rw [Element.eval, Machine.run_bind_eq, hv last]
      rfl
    | some c =>
      have hown : ∀ f, c ≠ .user f := by
        rintro f rfl
        have hcases := Typing.implicit?_cases (huser t) hhow
        simp at hcases
      choose become hbecome using Conversion.run_apply hown env.host
      refine ⟨become, fun v tally tally' hv last => ?_⟩
      rw [Element.eval, Machine.run_bind_eq, hv last]
      exact hbecome v tally'

/-- A comparison of two operands has a value if they become values that can be compared, and then it
is a boolean. -/
theorem run_comparison_eq_ok {op : Operator} {c : Comparison} {ignoreCase : Bool}
    (hl : ∀ last, (l'.eval env last).run tally = (x, tally₁))
    (hr : ∀ last, (r'.eval env last).run tally₁ = (y, tally₂)) :
    ((Element.binary (c.operation ignoreCase op) .bool l' r').eval env last).run tally =
      (.ok v, tally') ↔
      ∃ a b holds, x = .ok a ∧ y = .ok b ∧ (c.operation ignoreCase op).apply env.host a b =
        pure (.bool holds) ∧
        v = .bool holds ∧ tally' = tally₂ := by
  have hrun : ((Element.binary (c.operation ignoreCase op) .bool l' r').eval env last).run tally =
    (.ok v, tally') ↔
      ∃ a b, x = .ok a ∧ y = .ok b ∧ ((c.operation ignoreCase op).apply env.host a b).run tally₂ =
        (.ok v, tally') := by
    rw [Element.eval, Machine.run_bind_eq_ok]
    simp only [Machine.run_bind_eq_ok]
    constructor
    · rintro ⟨a, _, ha, b, _, hb, happly⟩
      obtain ⟨rfl, rfl⟩ := Prod.mk.inj ((hl last).symm.trans ha)
      obtain ⟨rfl, rfl⟩ := Prod.mk.inj ((hr (some a)).symm.trans hb)
      exact ⟨a, b, rfl, rfl, happly⟩
    · rintro ⟨a, b, rfl, rfl, happly⟩
      exact ⟨a, tally₁, hl last, b, tally₂, hr (some a), happly⟩
  rw [hrun]
  constructor
  · rintro ⟨a, b, hx, hy, happly⟩
    rcases c.apply_settled env.host ignoreCase a b with ⟨holds, hholds⟩ | hbroken
    · rw [hholds] at happly
      cases happly
      exact ⟨a, b, holds, hx, hy, hholds, rfl, rfl⟩
    · rw [hbroken] at happly
      cases happly
  · rintro ⟨a, b, holds, hx, hy, hholds, rfl, rfl⟩
    refine ⟨a, b, hx, hy, ?_⟩
    rw [hholds]
    rfl

theorem yields_comparison {op : Operator} {c : Comparison} {ignoreCase : Bool}
    (hl : ∀ last, (l'.eval env last).run tally = (x, tally₁))
    (hr : ∀ last, (r'.eval env last).run tally₁ = (y, tally₂)) :
    (Element.binary (c.operation ignoreCase op) .bool l' r').Yields env v tally
      tally₂ ↔ ∃ a b holds,
      x = .ok a ∧ y = .ok b ∧ (c.operation ignoreCase op).apply env.host a b = pure (.bool holds) ∧
        v = .bool holds := by
  constructor
  · intro h
    obtain ⟨a, b, holds, hx, hy, happly, hv, -⟩ := (run_comparison_eq_ok hl hr).1 (h none)
    exact ⟨a, b, holds, hx, hy, happly, hv⟩
  · rintro ⟨a, b, holds, hx, hy, happly, hv⟩ last
    exact (run_comparison_eq_ok hl hr).2 ⟨a, b, holds, hx, hy, happly, hv, rfl⟩

/-- A comparison of two operands yields what its mirror image yields of them in the other order. -/
theorem yields_mirror {op : Operator} {c : Comparison} {ignoreCase : Bool}
    {other other₁ other₂ : Tally} (hop : op.isComparison = true)
    (hl : ∀ last, (l'.eval env last).run tally = (x, tally₁))
    (hr : ∀ last, (r'.eval env last).run tally₁ = (y, tally₂))
    (hr' : ∀ last, (r'.eval env last).run other = (y, other₁))
    (hl' : ∀ last, (l'.eval env last).run other₁ = (x, other₂)) :
    (Element.binary (c.operation ignoreCase op) .bool l' r').Yields env v tally tally₂ ↔
      (Element.binary (c.operation ignoreCase op.mirror) .bool r' l').Yields env v
        other other₂ := by
  rw [yields_comparison hl hr, yields_comparison hr' hl']
  constructor
  · rintro ⟨a, b, holds, hx, hy, happly, hv⟩
    exact ⟨b, a, holds, hy, hx, (c.apply_mirror env.host _ a b hop).trans happly, hv⟩
  · rintro ⟨b, a, holds, hy, hx, happly, hv⟩
    exact ⟨a, b, holds, hx, hy, (c.apply_mirror env.host _ a b hop).symm.trans happly, hv⟩

/-- Two operands are found unequal exactly where they are found not to be equal. -/
theorem yields_notEqual {c : Comparison} {ignoreCase holds : Bool}
    (hl : ∀ last, (l'.eval env last).run tally = (x, tally₁))
    (hr : ∀ last, (r'.eval env last).run tally₁ = (y, tally₂)) :
    (Element.binary (c.operation ignoreCase .equal) .bool l' r').Yields env
      (.bool holds) tally tally₂ ↔
      (Element.binary (c.operation ignoreCase .notEqual) .bool l' r').Yields env (.bool !holds)
        tally tally₂ := by
  rw [yields_comparison hl hr, yields_comparison hl hr]
  constructor
  · rintro ⟨a, b, _, hx, hy, happly, hv⟩
    cases hv
    exact ⟨a, b, !holds, hx, hy, (c.apply_notEqual_iff env.host _ a b).1 happly, rfl⟩
  · rintro ⟨a, b, _, hx, hy, happly, hv⟩
    cases hv
    exact ⟨a, b, holds, hx, hy, (c.apply_notEqual_iff env.host _ a b).2 happly, rfl⟩

end Evaluation

section Trees

open Grammar (Form Tree)
open Lexical (Place Token)

variable {s : Scope} {t u : Tree} {x y : Token} {name name' : String}
  {place place' : Place} {e : Element}

/-- Two expressions with an operator of comparison between them. -/
def comparing (x : Token) (name : String) (place : Place) (t u : Tree) : Tree :=
  .node Form.compare.number name place [t, .leaf x, u]

theorem element_comparing : element s (comparing x name place t u) = .ok e ↔
    ∃ l r, element s t = .ok l ∧ element s u = .ok r ∧
      compare s (operatorOf x.kind) l r = .ok e := by
  have hvalue : ∀ {t : Tree} {l : Element}, build s t = .ok (.value l) → element s t = .ok l := by
    intro t l h
    rw [element, h]
    rfl
  have hbuilt : ∀ {p : Part} {l : Element}, p.element = .ok l → p.built = .value l := by
    rintro ⟨place, built⟩ l h
    cases built <;> cases h
    rfl
  constructor
  · intro h
    obtain ⟨parts, hparts, h⟩ := bind_eq_ok.1 (element_eq_ok h)
    obtain ⟨a, ha, hparts⟩ := bind_eq_ok.1 hparts
    obtain ⟨rest, hrest, hparts⟩ := bind_eq_ok.1 hparts
    obtain ⟨_, ho, hrest⟩ := bind_eq_ok.1 hrest
    obtain ⟨last, hlast, hrest⟩ := bind_eq_ok.1 hrest
    obtain ⟨b, hb, hlast⟩ := bind_eq_ok.1 hlast
    cases ho
    cases hlast
    cases hrest
    cases hparts
    rw [ofNumber?_number] at h
    obtain ⟨l, hl, h⟩ := bind_eq_ok.1 (placedAt_eq_ok.1 h)
    obtain ⟨e', he, h⟩ := map_eq_ok.1 h
    cases h
    obtain ⟨r, hr, he⟩ := bind_eq_ok.1 he
    obtain ⟨e'', hcompare, he⟩ := bind_eq_ok.1 he
    cases he
    exact ⟨l, r, hvalue (hbuilt hl ▸ ha), hvalue (hbuilt hr ▸ hb), placedAt_eq_ok.1 hcompare⟩
  · rintro ⟨l, r, hl, hr, hcompare⟩
    refine hvalue
      (bind_eq_ok.2 ⟨[⟨t.place, .value l⟩, ⟨x.place, .token x⟩, ⟨u.place, .value r⟩], ?_, ?_⟩)
    · rw [buildAll, element_eq_ok hl, buildAll, build, buildAll, element_eq_ok hr]
      rfl
    · rw [ofNumber?_number, placedAt_eq_ok]
      exact bind_eq_ok.2 ⟨l, rfl, map_eq_ok.2
        ⟨e, bind_eq_ok.2 ⟨r, rfl, bind_eq_ok.2 ⟨e, placedAt_eq_ok.2 hcompare, rfl⟩⟩, rfl⟩⟩

/-- A comparison that compiles is the operation on its operands converted to its type. -/
theorem exists_operands_of_compare {op : Operator} {l r : Element} (hop : op.isComparison = true)
    (hquiet : s.Quiet op l.type r.type) (h : compare s op l r = .ok e) :
    ∃ c l' r', Typing.comparison? s.host op.isEquality l.type r.type = some c ∧
      operand s l c.operand? = .ok l' ∧
      operand s r c.operand? = .ok r' ∧ e = .binary (c.operation s.options.ignoreCase op)
        .bool l' r' := by
  have hcompare := compare_eq hop hquiet
  cases hc : Typing.comparison? s.host op.isEquality l.type r.type with
  | none =>
    rw [hc] at hcompare
    cases h.symm.trans hcompare
  | some c =>
    rw [hc] at hcompare
    obtain ⟨l', r', hl, hr, he⟩ := hcompare
    exact ⟨c, l', r', rfl, hl, hr, Except.ok.inj (h.symm.trans he)⟩

/-- A comparison of two expressions that compiles is the operation on their elements. -/
theorem exists_operands_of_comparing {l r : Element} (hops : s.operators = {})
    (hx : (operatorOf x.kind).isComparison = true) (hl : element s t = .ok l)
    (hr : element s u = .ok r) (he : element s (comparing x name place t u) = .ok e) :
    ∃ c l' r', Typing.comparison? s.host (operatorOf x.kind).isEquality l.type r.type = some c ∧
      operand s l c.operand? = .ok l' ∧ operand s r c.operand? = .ok r' ∧
      e = .binary (c.operation s.options.ignoreCase (operatorOf x.kind)) .bool l' r' := by
  obtain ⟨_, _, hl', hr', hcompare⟩ := element_comparing.1 he
  cases hl.symm.trans hl'
  cases hr.symm.trans hr'
  exact exists_operands_of_compare hx (Scope.quiet_of_empty hops ..) hcompare

/-- Two expressions with a comparison between them compile exactly if both do and their types have a
comparison. -/
theorem exists_comparing_iff (hops : s.operators = {})
    (hx : (operatorOf x.kind).isComparison = true) :
    (∃ e, element s (comparing x name place t u) = .ok e) ↔ ∃ l r, element s t = .ok l ∧
      element s u = .ok r ∧
      (Typing.comparison? s.host (operatorOf x.kind).isEquality l.type r.type).isSome = true := by
  constructor
  · rintro ⟨e, he⟩
    obtain ⟨l, r, hl, hr, hcompare⟩ := element_comparing.1 he
    obtain ⟨c, -, -, hc, -⟩ := exists_operands_of_compare hx (Scope.quiet_of_empty hops ..) hcompare
    exact ⟨l, r, hl, hr, Option.isSome_of_mem hc⟩
  · rintro ⟨l, r, hl, hr, hsome⟩
    obtain ⟨c, hc⟩ := Option.isSome_iff_exists.1 hsome
    have hcompare := compare_eq hx (Scope.quiet_of_empty hops (operatorOf x.kind) l.type r.type)
    rw [hc] at hcompare
    obtain ⟨l', r', -, -, hcompare⟩ := hcompare
    exact ⟨_, element_comparing.2 ⟨l, r, hl, hr, hcompare⟩⟩

/-- Without operators and conversions of the host, comparisons of one kind compile for the same
operands, in either order. What two expressions give in turn, in both orders, is compared alike by
an operator and by its mirror image, and two values are unequal where they are not equal. -/
theorem comparisons_coherent (hops : s.operators = {})
    (hx : (operatorOf x.kind).isComparison = true) (hy : (operatorOf y.kind).isComparison = true)
    (hkind : (operatorOf x.kind).isEquality = (operatorOf y.kind).isEquality) :
    ((∃ e, element s (comparing x name place t u) = .ok e) ↔ ∃ e,
      element s (comparing y name' place' t u) = .ok e) ∧
    ((∃ e, element s (comparing x name place t u) = .ok e) ↔ ∃ e,
      element s (comparing y name' place' u t) = .ok e) ∧
    ∀ {l r : Element} {env : Environment} {a b : Value}
      {tally tally₁ tally₂ other other₁ other₂ : Tally},
      element s t = .ok l → element s u = .ok r → l.Yields env a tally tally₁ →
        r.Yields env b tally₁ tally₂ →
      r.Yields env b other other₁ → l.Yields env a other₁ other₂ → ∀ e,
        element s (comparing x name place t u) = .ok e →
        (∀ last v tally', (e.eval env last).run tally = (.ok v, tally') →
          ∃ holds, v = .bool holds ∧ e.Yields env v tally tally₂) ∧
        (operatorOf y.kind = (operatorOf x.kind).mirror → ∀ e',
          element s (comparing y name' place' u t) = .ok e' →
          ∀ v, e.Yields env v tally tally₂ ↔ e'.Yields env v other other₂) ∧
        (operatorOf x.kind = .equal → operatorOf y.kind = .notEqual →
          ∀ e', element s (comparing y name' place' t u) = .ok e' →
            ∀ holds, e.Yields env (.bool holds) tally tally₂ ↔
              e'.Yields env (.bool !holds) tally tally₂) := by
  have hquiet : ∀ op t u, s.Quiet op t u := Scope.quiet_of_empty hops
  refine ⟨?_, ?_, ?_⟩
  · rw [exists_comparing_iff hops hx, exists_comparing_iff hops hy, hkind]
  · rw [exists_comparing_iff hops hx, exists_comparing_iff hops hy, hkind]
    constructor
    · rintro ⟨l, r, hl, hr, h⟩
      exact ⟨r, l, hr, hl, Typing.comparison?_comm s.host .. ▸ h⟩
    · rintro ⟨r, l, hr, hl, h⟩
      exact ⟨l, r, hl, hr, Typing.comparison?_comm s.host .. ▸ h⟩
  intro l r env a b tally tally₁ tally₂ other other₁ other₂ hl hr ha hb hb' ha' e he
  obtain ⟨c, l', r', hc, hl', hr', rfl⟩ := exists_operands_of_comparing hops hx hl hr he
  obtain ⟨left, hleft⟩ := exists_run_operand (hquiet .equal l.type r.type).left hl' env
  obtain ⟨right, hright⟩ := exists_run_operand (hquiet .equal l.type r.type).right hr' env
  have hla := hleft a _ _ ha
  have hrb := hright b _ _ hb
  refine ⟨fun last v tally' hrun => ?_, fun hmirror e' he' v =>
    ?_, fun hequal hother e' he' holds => ?_⟩
  · obtain ⟨a', b', holds, hxa, hyb, happly, rfl, -⟩ := (run_comparison_eq_ok hla hrb).1 hrun
    exact ⟨holds, rfl, (yields_comparison hla hrb).2 ⟨a', b', holds, hxa, hyb, happly, rfl⟩⟩
  · obtain ⟨c', r'', l'', hc', hr'', hl'', rfl⟩ := exists_operands_of_comparing hops hy hr hl he'
    rw [← hkind, Typing.comparison?_comm] at hc'
    cases hc.symm.trans hc'
    cases hl'.symm.trans hl''
    cases hr'.symm.trans hr''
    rw [hmirror]
    exact yields_mirror hx hla hrb (hright b _ _ hb') (hleft a _ _ ha')
  · obtain ⟨c', l'', r'', hc', hl'', hr'', rfl⟩ := exists_operands_of_comparing hops hy hl hr he'
    rw [← hkind] at hc'
    cases hc.symm.trans hc'
    cases hl'.symm.trans hl''
    cases hr'.symm.trans hr''
    rw [hequal, hother]
    exact yields_notEqual hla hrb

/-- `2.50m < 3` and `3 > 2.50m`, where a number meets a decimal. -/
theorem comparisons_coherent_mixed :
    let s : Scope := ⟨.bare, {}, {}, [], {}, none⟩
    let env : Environment := ⟨.bare, .nil, fun _ _ => breakdown, fun _ _ _ => breakdown⟩
    let literal (k : Lexical.Kind) (image : String) : Tree :=
      .node Form.chain.number "" {} [.leaf ⟨k, Text.ofString image, {}⟩]
    let price := literal .real "2.50m"
    let count := literal .integer "3"
    ∃ e e', element s (comparing ⟨.less, [], {}⟩ "" {} price count) = .ok e ∧
      element s (comparing ⟨.greater, [], {}⟩ "" {} count price) = .ok e' ∧
      e.Yields env (.bool true) [] [] ∧ e'.Yields env (.bool true) [] [] := by
  intro s env literal price count
  have hprice : ∃ m n, element s price = .ok (.constant .decimal (.decimal ⟨250, -2⟩ m) n) :=
    ⟨_, _, rfl⟩
  have hcount : ∃ n, element s count = .ok (.constant (.int .int) (.int .int 3) n) := ⟨_, rfl⟩
  obtain ⟨m, n, hprice⟩ := hprice
  obtain ⟨n', hcount⟩ := hcount
  have hyields : ∀ t v n, (Element.constant t v n).Yields env v [] [] := fun t v n last => by
    rw [Element.eval]; rfl
  obtain ⟨-, hcompiles, hvalues⟩ := @comparisons_coherent s price count ⟨.less, [], {}⟩
    ⟨.greater, [], {}⟩ "" "" {} {}
    rfl rfl rfl rfl
  have he : ∃ e, element s (comparing ⟨.less, [], {}⟩ "" {} price count) = .ok e ∧
      e.Yields env (.bool true) [] [] := by
    have hless : (Comparison.operation false .less (.ordered .decimal)).apply .bare
      (.decimal ⟨250, -2⟩ m)
        (.ofDecimal ⟨3, 0⟩) = pure (.bool true) := by
      have horder : Decimal.compare ⟨250, -2⟩ ⟨3, 0⟩ = .lt := by decide
      show Host.bare.invoke (Builtin.comparison .less .decimal)
        [.decimal ⟨250, -2⟩ m, .ofDecimal ⟨3, 0⟩] = _
      rw [Builtin.comparison, Host.invoke_two]
      show pure (Value.bool (Operator.less.decides (Decimal.compare ⟨250, -2⟩ ⟨3, 0⟩))) = _
      rw [horder]
      rfl
    have hcounted : (Element.convert "conv" (some (.numeric .decimal)) .decimal
        (.constant (.int .int) (.int .int 3) n')).Yields env (.ofDecimal ⟨3, 0⟩) [] [] := by
      intro last
      rw [Element.eval, Element.eval]
      rfl
    have hquiet : s.Quiet .less .decimal (.int .int) := Scope.quiet_of_empty rfl _ _ _
    obtain ⟨l, r, hl, hr, hcompare⟩ := compare_eq (l := .constant .decimal (.decimal ⟨250, -2⟩ m) n)
      (r := .constant (.int .int) (.int .int 3) n')
        (show Operator.less.isComparison = true from rfl) hquiet
    cases hl
    cases hr
    exact ⟨_, element_comparing.2 ⟨_, _, hprice, hcount, hcompare⟩,
      (yields_comparison (hyields .decimal (.decimal ⟨250, -2⟩ m) n) hcounted).2
        ⟨_, _, true, rfl, rfl, hless, rfl⟩⟩
  obtain ⟨e, he, htrue⟩ := he
  obtain ⟨e', he'⟩ := hcompiles.1 ⟨e, he⟩
  obtain ⟨-, hmirror, -⟩ := hvalues hprice hcount (hyields _ _ _) (hyields _ _ _) (hyields _ _ _)
    (hyields _ _ _) e he
  exact ⟨e, e', he, he', htrue, (hmirror rfl e' he' _).1 htrue⟩

end Trees

end Build

end Formulary
