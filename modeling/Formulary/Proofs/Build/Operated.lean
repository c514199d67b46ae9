import Formulary.Proofs.Build.Typed

/-!
# Operators keep the typing rules

A candidate that is chosen is one of those that were offered, so an overload is one that the host
registered or a built-in one. From typed operands every operator builds a typed element: the
operands are converted to the type the operation computes in.
-/

namespace Formulary

namespace Overload

variable {α σ : Type} {scale : Scale σ} {score : Ty → Ty → Int} {args : List Ty}

theorem mem_of_matches? {n : Nat} {candidates : List (Candidate α)} {found : List (Match α σ)}
    (h : matches? scale score args n candidates = some found) : ∀ m ∈ found,
    m.candidate ∈ candidates := by
  induction candidates generalizing n found with
  | nil =>
    cases h
    exact fun m hm => nomatch hm
  | cons c candidates ih =>
    rw [matches?] at h
    split at h
    · cases h
    · exact fun m hm => List.mem_cons_of_mem _ (ih h m hm)
    · obtain ⟨rest, hrest, rfl⟩ := Option.map_eq_some_iff.1 h
      intro m hm
      rcases List.mem_cons.1 hm with rfl | hm
      · exact List.mem_cons_self
      · exact List.mem_cons_of_mem _ (ih hrest m hm)

theorem best_mem (m : Match α σ) (ties : Nat) (rest : List (Match α σ)) :
    (best scale m ties rest).1 ∈ m :: rest := by
  induction rest generalizing m ties with
  | nil => exact List.mem_singleton.2 rfl
  | cons n rest ih =>
    have hskip : ∀ t, (best scale m t rest).1 ∈ m :: n :: rest := fun t =>
      List.cons_subset_cons m (List.subset_cons_self n rest) (ih m t)
    rw [best]
    split
    · exact List.mem_cons_of_mem _ (ih n 0)
    · split
      · exact hskip (ties + 1)
      · exact hskip ties

/-- The best candidate is one of those that can take the arguments, and may be used. -/
theorem mem_of_resolve {candidates : List (Candidate α)} {m : Match α σ}
    (h : resolve scale score candidates args = .ok m) :
    ∃ found, matches? scale score args 0 candidates = some found ∧ m ∈ found ∧
      m.candidate.accessible = true := by
  unfold resolve at h
  cases hfound : matches? scale score args 0 candidates with
  | none =>
    rw [hfound] at h
    cases h
  | some found =>
    simp only [hfound] at h
    cases hfilter : found.filter fun n => n.candidate.accessible with
    | nil =>
      rw [hfilter] at h
      cases found with
      | nil => cases h
      | cons n found => cases h
    | cons first rest =>
      simp only [hfilter] at h
      split at h
      · cases h
      · cases h
        have hmem : (best scale first 0 rest).1 ∈ found.filter fun n => n.candidate.accessible := by
          rw [hfilter]
          exact best_mem first 0 rest
        obtain ⟨hmem, haccess⟩ := List.mem_filter.1 hmem
        exact ⟨found, rfl, hmem, haccess⟩

theorem resolve_accessible {candidates : List (Candidate α)} {m : Match α σ}
    (h : resolve scale score candidates args = .ok m) : m.candidate ∈ candidates ∧
    m.candidate.accessible = true := by
  obtain ⟨found, hfound, hmem, haccess⟩ := mem_of_resolve h
  exact ⟨mem_of_matches? hfound _ hmem, haccess⟩

theorem resolve_mem {candidates : List (Candidate α)} {m : Match α σ}
    (h : resolve scale score candidates args = .ok m) : m.candidate ∈ candidates :=
  (resolve_accessible h).1

/-- A candidate that can take the arguments is the best if there is no other, whatever scores are
measured in. -/
theorem resolve_singleton {c : Candidate α} {x : σ} {expanded : Bool}
    (hfit : fit scale score c args = .yes x expanded)
    (haccess : c.accessible = true) : resolve scale score [c] args = .ok ⟨c, 0, x, expanded⟩ := by
  simp only [resolve, matches?, hfit, Option.map_some, List.filter_cons, haccess, if_true,
    List.filter_nil, best]
  rfl

end Overload

/-- Each outcome of a list of attempts that all succeed is the outcome of one of them. -/
theorem exists_of_mem_mapM {ε α β : Type} {f : α → Except ε β} {l : List α} {ys : List β}
    (h : l.mapM f = .ok ys) : ∀ y ∈ ys, ∃ x ∈ l, f x = .ok y := by
  induction l generalizing ys with
  | nil =>
    cases h
    exact fun y hy => nomatch hy
  | cons x l ih =>
    rw [List.mapM_cons] at h
    obtain ⟨b, hb, h⟩ := bind_eq_ok.1 h
    obtain ⟨rest, hrest, h⟩ := bind_eq_ok.1 h
    cases h
    intro y hy
    rcases List.mem_cons.1 hy with rfl | hy
    · exact ⟨x, List.mem_cons_self, hb⟩
    · obtain ⟨z, hz, hf⟩ := ih hrest y hy
      exact ⟨z, List.mem_cons_of_mem _ hz, hf⟩

theorem Ty.eq_int_of_isIntegral {t : Ty} (h : t.isIntegral = true) : ∃ k, t = .int k := by
  cases t with
  | int k => exact ⟨k, rfl⟩
  | _ => cases h

namespace Typing

/-- A conditional answer is that of a branch. -/
theorem of_ite_eq_some {c P : Prop} [Decidable c] {x y : Option Ty} {t : Ty}
    (h : (if c then x else y) = some t)
    (hx : c → x = some t → P) (hy : ¬c → y = some t → P) : P := by
  by_cases hc : c
  · exact hx hc (by rwa [if_pos hc] at h)
  · exact hy hc (by rwa [if_neg hc] at h)

/-- What two operands become is a type of its own arithmetic. -/
theorem isComputed_of_operandType? {a b t : Ty} (h : operandType? a b = some t) :
    isComputed (widened t) := by
  have hnamed : ∀ u : Ty, isComputed (widened u) → some u = some t → isComputed (widened t) := by
    intro u hu heq
    cases heq
    exact hu
  refine of_ite_eq_some h (fun _ => nofun) fun _ h => of_ite_eq_some h (fun _ h => ?_) fun _ h => ?_
  · refine of_ite_eq_some h (fun hsame => hnamed _ ?_) fun _ => hnamed _ rfl
    simp only [List.contains_iff_mem, List.mem_cons, List.not_mem_nil, or_false] at hsame
    rcases hsame with hs | hs | hs | hs | hs | hs <;> rw [hs] <;> rfl
  -- From here on every branch names its type.
  refine of_ite_eq_some h (fun _ => hnamed _ rfl) fun _ h =>
    of_ite_eq_some h (fun _ => hnamed _ rfl) fun _ h => ?_
  refine of_ite_eq_some h (fun _ h => of_ite_eq_some h (fun _ => hnamed _ rfl) fun _ =>
    nofun) fun _ h => ?_
  refine of_ite_eq_some h (fun _ => hnamed _ rfl) fun _ h =>
    of_ite_eq_some h (fun _ h => ?_) fun _ h => ?_
  · exact of_ite_eq_some h (fun _ => hnamed _ rfl) fun _ => hnamed _ rfl
  · refine of_ite_eq_some h (fun _ h => ?_) fun _ => hnamed _ rfl
    split at h
    · exact hnamed _ rfl h
    · exact hnamed _ rfl h
    · cases h

theorem isIntegral_of_bitwiseType? {a b t : Ty} (h : bitwiseType? a b = some t) :
    (widened t).isIntegral := by
  unfold bitwiseType? at h
  split at h
  · rename_i hint
    obtain ⟨ha, hb⟩ := Bool.and_eq_true_iff.1 hint
    obtain ⟨j, rfl⟩ := Ty.eq_int_of_isIntegral ha
    obtain ⟨k, rfl⟩ := Ty.eq_int_of_isIntegral hb
    cases j <;> cases k <;> cases h <;> rfl
  · cases h

end Typing

namespace Build

variable {s : Scope} {last : Option Ty} {l r x y e : Element} {op : Operator}

/-- A conversion without a cast keeps the rules and gives the type asked for. -/
theorem implicit_typed {t : Ty} (hx : Typed s last x) (h : s.implicit x t = .ok e) :
    Typed s last e ∧ e.type = t := by
  unfold Scope.implicit at h
  split at h
  · rename_i heq
    cases h
    exact ⟨hx, by simpa using heq⟩
  · split at h
    · rename_i how hhow
      cases h
      exact ⟨.convert hx (.inl hhow), rfl⟩
    · cases h

theorem both_typed {t : Ty} (hl : Typed s last l) (hr : Typed s none r)
    (h : both s l r t = .ok (x, y)) :
    (Typed s last x ∧ x.type = t) ∧ Typed s none y ∧ y.type = t := by
  obtain ⟨a, ha, h⟩ := bind_eq_ok.1 h
  obtain ⟨b, hb, h⟩ := bind_eq_ok.1 h
  cases h
  exact ⟨implicit_typed hl ha, implicit_typed hr hb⟩

/-- An overload found through one operand is one of the candidates. -/
theorem overloadThrough?_mem {candidates : List (Overload.Candidate (Function × Nat))}
    {args : List Ty} {t : Ty} {m : Overload.Match (Function × Nat) Float}
    (h : overloadThrough? s op candidates args t = .ok (some m)) :
    m.candidate ∈ candidates := by
  unfold overloadThrough? at h
  simp only at h
  split at h
  · rename_i best hbest
    cases h
    have hmem := Overload.resolve_mem hbest
    split at hmem
    · exact (List.mem_filter.1 hmem).1
    · exact nomatch hmem
  · cases h
  · cases h

/-- The overload that is found is among those on the types of the operands. -/
theorem overload?_mem {ops : Operators} {args : List Ty} {f : Function}
    (h : overload? s op ops args = .ok (some f)) :
    f ∈ match args with
      | [t] => ops.unaryOn op t
      | [t, u] => ops.binaryOn op t u
      | _ => [] := by
  obtain ⟨found, hfound, h⟩ := bind_eq_ok.1 h
  have hmem : ∀ m ∈ found.filterMap id, m.candidate.payload.1 ∈ match args with
      | [t] => ops.unaryOn op t
      | [t, u] => ops.binaryOn op t u
      | _ => [] := by
    intro m hm
    obtain ⟨o, ho, rfl⟩ := List.mem_filterMap.1 hm
    obtain ⟨t, -, ht⟩ := exists_of_mem_mapM hfound _ ho
    obtain ⟨entry, hentry, heq⟩ := List.mem_map.1 (overloadThrough?_mem ht)
    rw [← heq]
    exact (List.mem_zipIdx' hentry).2 ▸ List.getElem_mem _
  split at h
  · cases h
  · rename_i m hm
    cases h
    exact hmem m (hm ▸ List.mem_cons_self)
  · rename_i m n rest hm
    split at h
    · cases h
      exact hmem m (hm ▸ List.mem_cons_self)
    · cases h

theorem anyOverload?_mem {args : List Ty} {f : Function}
    (h : anyOverload? s op args = .ok (some f)) :
    overload? s op s.operators args = .ok (some f) ∨
      overload? s op Builtin.operators args = .ok (some f) := by
  obtain ⟨found, hfound, h⟩ := bind_eq_ok.1 h
  cases found with
  | some g =>
    cases h
    exact .inl hfound
  | none => exact .inr h

theorem overloadThrough?_eq_none {candidates : List (Overload.Candidate (Function × Nat))}
    {args : List Ty} {t : Ty}
    (h : declaresOverloads t = false) : overloadThrough? s op candidates args t = .ok none := by
  unfold overloadThrough?
  rw [if_neg (by rw [h]; decide)]
  rfl

/-- Types without overloads of their own have no overload, built in or not. -/
theorem overload?_eq_none {ops : Operators} {args : List Ty}
    (h : ∀ t ∈ args, declaresOverloads t = false) :
    overload? s op ops args = .ok none := by
  have hfound : ∀ (candidates : List (Overload.Candidate (Function × Nat))) (ts : List Ty),
    (∀ t ∈ ts, t ∈ args) →
      ts.mapM (overloadThrough? s op candidates args) = .ok (ts.map fun _ => none) := by
    intro candidates ts hts
    induction ts with
    | nil => rfl
    | cons t ts ih =>
      rw [List.mapM_cons, overloadThrough?_eq_none (h t (hts t List.mem_cons_self)),
        ih fun u hu => hts u (List.mem_cons_of_mem t hu)]
      rfl
  have hnone : ((args.eraseDups.map fun _ => none).filterMap id :
      List (Overload.Match (Function × Nat) Float)) = [] := by
    simp [List.filterMap_map]
  unfold overload?
  simp only [hfound _ _ fun t ht => List.mem_eraseDups.1 ht, bind, Except.bind]
  rw [hnone]

theorem anyOverload?_eq_none {args : List Ty} (h : ∀ t ∈ args, declaresOverloads t = false) :
    anyOverload? s op args = .ok none := by
  rw [anyOverload?, overload?_eq_none h]
  exact overload?_eq_none h

theorem overloadedBinary?_eq_none (hl : declaresOverloads l.type = false)
    (hr : declaresOverloads r.type = false) :
    overloadedBinary? s op l r = .ok none := by
  rw [overloadedBinary?, anyOverload?_eq_none]
  · rfl
  · simp [hl, hr]

theorem mem_binary_of_overload? {ops : Operators} {t u : Ty} {f : Function}
    (h : overload? s op ops [t, u] = .ok (some f)) : (op, f) ∈ ops.binary := by
  have hmem : f ∈ ops.binaryOn op t u := overload?_mem h
  obtain ⟨entry, hentry, rfl⟩ := List.mem_map.1 hmem
  obtain ⟨hin, hop⟩ := List.mem_filter.1 hentry
  obtain rfl : entry.1 = op := by
    simp only [Bool.and_eq_true, beq_iff_eq] at hop
    exact hop.1
  exact hin

theorem mem_unary_of_overload? {ops : Operators} {t : Ty} {f : Function}
    (h : overload? s op ops [t] = .ok (some f)) : (op, f) ∈ ops.unary := by
  have hmem : f ∈ ops.unaryOn op t := overload?_mem h
  obtain ⟨entry, hentry, rfl⟩ := List.mem_map.1 hmem
  obtain ⟨hin, hop⟩ := List.mem_filter.1 hentry
  obtain rfl : entry.1 = op := by
    simp only [Bool.and_eq_true, beq_iff_eq] at hop
    exact hop.1
  exact hin

/-- A binary operator by an overload: the element keeps the rules, and the overload is one of the
operator's. -/
theorem overloadedBinary?_typed (hl : Typed s last l) (hr : Typed s none r)
    (h : overloadedBinary? s op l r = .ok (some e)) :
    Typed s last e ∧ ∃ f, ((op, f) ∈ s.operators.binary ∨ (op, f) ∈ Builtin.operators.binary) ∧
      f.signature.results.head? = some e.type := by
  obtain ⟨found, hfound, h⟩ := bind_eq_ok.1 h
  cases found with
  | none => cases h
  | some f =>
    have hmem : (op, f) ∈ s.operators.binary ∨ (op, f) ∈ Builtin.operators.binary :=
      (anyOverload?_mem hfound).imp mem_binary_of_overload? mem_binary_of_overload?
    simp only at h
    split at h
    · rename_i p q t rest hparams hresults
      obtain ⟨a, ha, h⟩ := bind_eq_ok.1 h
      obtain ⟨b, hb, h⟩ := bind_eq_ok.1 h
      cases h
      have hhead : f.signature.results.head? = some t := by rw [hresults]; rfl
      obtain ⟨ha, hp⟩ := implicit_typed hl ha
      obtain ⟨hb, hq⟩ := implicit_typed hr hb
      exact ⟨.binary ha hb ⟨hmem, by rw [hparams, hp, hq], hhead⟩, f, hmem, hhead⟩
    · cases h

theorem overloadedUnary?_typed (hx : Typed s last x) (h : overloadedUnary? s op x = .ok (some e)) :
    Typed s last e := by
  obtain ⟨found, hfound, h⟩ := bind_eq_ok.1 h
  cases found with
  | none => cases h
  | some f =>
    have hmem : (op, f) ∈ s.operators.unary ∨ (op, f) ∈ Builtin.operators.unary :=
      (anyOverload?_mem hfound).imp mem_unary_of_overload? mem_unary_of_overload?
    simp only at h
    split at h
    · rename_i p t rest hparams hresults
      obtain ⟨a, ha, h⟩ := bind_eq_ok.1 h
      cases h
      have hhead : f.signature.results.head? = some t := by rw [hresults]; rfl
      obtain ⟨ha, hp⟩ := implicit_typed hx ha
      exact .unary ha ⟨hmem, by rw [hparams, hp], hhead⟩
    · cases h

/-- Sums, products and powers. -/
theorem arithmetic_typed (hl : Typed s none l) (hr : Typed s none r)
    (h : arithmetic s op l r = .ok e) :
    Typed s none e := by
  unfold arithmetic at h
  split at h
  · cases h
    exact .binary hl hr rfl
  · obtain ⟨found, hfound, h⟩ := bind_eq_ok.1 h
    cases found with
    | some u =>
      cases h
      exact (overloadedBinary?_typed hl hr hfound).1
    | none =>
      simp only at h
      split at h
      · split at h
        · obtain ⟨⟨a, b⟩, hboth, h⟩ := bind_eq_ok.1 h
          cases h
          obtain ⟨⟨ha, hat⟩, hb, hbt⟩ := both_typed hl hr hboth
          exact .binary ha hb ⟨hat, hbt, rfl⟩
        · cases h
      · split at h
        · cases h
        · rename_i t ht
          obtain ⟨⟨a, b⟩, hboth, h⟩ := bind_eq_ok.1 h
          cases h
          obtain ⟨⟨ha, hat⟩, hb, hbt⟩ := both_typed hl hr hboth
          exact .binary ha hb ⟨Typing.isComputed_of_operandType? ht, hat, hbt, rfl⟩

/-- Built-in overloads of comparisons are boolean. -/
theorem builtin_comparison_bool {f : Function} (h : (.equal, f) ∈ Builtin.operators.binary) :
    f.signature.results.head? = some .bool := by
  have hall : ∀ x ∈ Builtin.operators.binary, x.1 = .equal →
    x.2.signature.results.head? = some .bool := by decide
  exact hall _ h rfl

/-- Comparisons keep the rules. A comparison is boolean, unless an overload of the host says
otherwise. -/
theorem compare_typed (hl : Typed s last l) (hr : Typed s none r) (h : compare s op l r = .ok e) :
    Typed s last e ∧ (op = .equal → s.Compared e.type) := by
  unfold compare at h
  split at h
  · rename_i hstrings
    simp only [Bool.and_eq_true, beq_iff_eq] at hstrings
    split at h
    · cases h
      exact ⟨.binary hl hr ⟨hstrings.1, hstrings.2, rfl⟩, fun _ => .inl rfl⟩
    · cases h
  · obtain ⟨found, hfound, h⟩ := bind_eq_ok.1 h
    cases found with
    | some u =>
      cases h
      obtain ⟨hu, f, hf, hres⟩ := overloadedBinary?_typed hl hr hfound
      refine ⟨hu, fun hop => ?_⟩
      subst hop
      rcases hf with hf | hf
      · exact .inr ⟨f, hf, hres⟩
      · rw [builtin_comparison_bool hf] at hres
        exact .inl (Option.some.inj hres).symm
    | none =>
      simp only at h
      split at h
      · rename_i t ht
        obtain ⟨⟨a, b⟩, hboth, h⟩ := bind_eq_ok.1 h
        cases h
        obtain ⟨⟨ha, hat⟩, hb, hbt⟩ := both_typed hl hr hboth
        exact ⟨.binary ha hb ⟨Typing.isComputed_of_operandType? ht, hat, hbt, rfl⟩,
          fun _ => .inl rfl⟩
      · split at h
        · split at h
          · rename_i henum
            simp only [Bool.and_eq_true, beq_iff_eq] at henum
            cases h
            exact ⟨.binary hl hr ⟨henum.2, henum.1.symm, rfl⟩, fun _ => .inl rfl⟩
          · cases h
        · split at h
          · cases h
            exact ⟨.binary hl hr rfl, fun _ => .inl rfl⟩
          · cases h

theorem shift_typed {left : Bool} (hl : Typed s none l) (hr : Typed s none r)
    (h : shift s left l r = .ok e) :
    Typed s none e := by
  unfold shift at h
  split at h
  · cases h
  · rename_i t ht
    obtain ⟨a, ha, h⟩ := bind_eq_ok.1 h
    split at h
    · rename_i b hb
      cases h
      obtain ⟨ha, hat⟩ := implicit_typed hl ha
      obtain ⟨hb, hbt⟩ := implicit_typed hr hb
      have hint : t.isIntegral := by
        generalize l.type = u at ht
        cases u with
        | int k => cases k <;> cases ht <;> rfl
        | char => cases ht; rfl
        | _ => cases ht
      exact .binary ha hb ⟨hint, hat, hbt, rfl⟩
    · cases h

/-- The operands of an element as a condition are as typed as the element. -/
theorem operands_typed (hx : Typed s last x) (bool : x.type = .bool) :
    ∀ e ∈ x.condition.operands, Typed s last e ∧ e.type = .bool := by
  cases x with
  | logic c =>
    cases hx with
    | logic h hbool => exact fun e he => ⟨h e he, hbool e he⟩
  | _ =>
    intro e he
    obtain rfl := List.mem_singleton.1 he
    exact ⟨hx, bool⟩

theorem logical_typed (hl : Typed s none l) (hr : Typed s none r) (h : logical s op l r = .ok e) :
    Typed s none e := by
  unfold logical at h
  split at h
  · rename_i hbools
    simp only [Bool.and_eq_true, beq_iff_eq] at hbools
    have hjoin : ∀ o : Logic, Typed s none (.logic (.join o l.condition r.condition)) := by
      intro o
      have hall : ∀ e ∈ (Condition.join o l.condition r.condition).operands, Typed s none e ∧
          e.type = .bool := by
        intro e he
        rcases List.mem_append.1 he with he | he
        · exact operands_typed hl hbools.1 e he
        · exact operands_typed hr hbools.2 e he
      exact .logic (fun e he => (hall e he).1) fun e he => (hall e he).2
    split at h
    · cases h
      exact hjoin .and
    · cases h
      exact hjoin .or
    · cases h
      exact .binary hl hr ⟨hbools.1, hbools.2, rfl⟩
  · obtain ⟨found, hfound, h⟩ := bind_eq_ok.1 h
    cases found with
    | some u =>
      cases h
      exact (overloadedBinary?_typed hl hr hfound).1
    | none =>
      simp only at h
      split at h
      · cases h
      · rename_i t ht
        obtain ⟨⟨a, b⟩, hboth, h⟩ := bind_eq_ok.1 h
        cases h
        obtain ⟨⟨ha, hat⟩, hb, hbt⟩ := both_typed hl hr hboth
        exact .binary ha hb ⟨Typing.isIntegral_of_bitwiseType? ht, hat, hbt, rfl⟩

theorem negation_typed (hx : Typed s none x) (h : negation s x = .ok e) : Typed s none e := by
  unfold negation at h
  split at h
  · rename_i hbool
    cases h
    exact .unary hx ⟨by simpa using hbool, rfl⟩
  · split at h
    · rename_i hint
      cases h
      exact .unary hx ⟨hint, rfl⟩
    · obtain ⟨found, hfound, h⟩ := bind_eq_ok.1 h
      cases found with
      | some u =>
        cases h
        exact overloadedUnary?_typed hx hfound
      | none => cases h

theorem firstFitting_plain {kinds : List IntKind} {n : Int} {v : Value}
    (h : firstFitting kinds n = some v) : v.Plain := by
  obtain ⟨k, -, rfl⟩ := Option.map_eq_some_iff.1 h
  trivial

theorem integerValue?_plain {asDoubles negated : Bool} {n : Nat} {suffix : String} {v : Value}
    (h : integerValue? asDoubles negated n suffix = some v) : v.Plain := by
  unfold integerValue? at h
  split at h
  · cases h
  · split at h
    · cases h
      trivial
    · split at h
      · split at h
        · exact firstFitting_plain h
        · exact firstFitting_plain h
        · cases h
      · split at h <;> exact firstFitting_plain h

theorem realValue_plain {o : Options} {image : Text} {negated : Bool} {v : Value}
    (h : realValue o image negated = .ok v) : v.Plain := by
  unfold realValue at h
  simp only at h
  split at h
  · cases h
    trivial
  · cases h
  · split at h
    · cases h
      trivial
    · cases h
  · cases h
  · split at h
    · cases h
      trivial
    · cases h
  · cases h

/-- A numeral is a literal of the type of its value. -/
theorem number_typed {o : Options} {kind : Lexical.Kind} {image : Text} {negated : Bool}
    (h : number o kind image negated = .ok e) : Typed s last e := by
  have plain : ∀ {v : Value}, v.Plain →
      Except.ok (.constant (v.type?.getD .null) v (some ⟨kind, image⟩)) =
        (.ok e : Except Failure Element) →
      Typed s last e := by
    intro v hv he
    cases he
    exact .literal _ hv
  unfold number at h
  simp only at h
  split at h
  · obtain ⟨v, hv, h⟩ := bind_eq_ok.1 h
    exact plain (realValue_plain hv) h
  · split at h
    · rename_i v hv
      exact plain (integerValue?_plain hv) h
    · cases h

/-- Every literal token stands for a literal. -/
theorem literal_typed {o : Options} {t : Lexical.Token} (h : literal o t = .ok e) :
    Typed s last e := by
  have plain : ∀ {v : Value} {u : Ty}, plainConstant u v = .ok e → v.Plain →
    v.type?.getD .null = u →
      Typed s last e := by
    intro v u he hv hu
    cases he
    subst hu
    exact .literal none hv
  unfold literal at h
  simp only at h
  split at h
  case h_1 | h_2 | h_3 => exact number_typed h
  case h_4 | h_5 | h_6 => exact plain h trivial rfl
  case h_7 | h_8 | h_9 | h_10 =>
    split at h
    · exact plain h trivial rfl
    · cases h
  case h_11 => cases h

theorem minus_typed (hx : Typed s none x) (h : minus s x = .ok e) : Typed s none e := by
  unfold minus at h
  split at h
  · exact number_typed h
  · obtain ⟨found, hfound, h⟩ := bind_eq_ok.1 h
    cases found with
    | some u =>
      cases h
      exact overloadedUnary?_typed hx hfound
    | none =>
      simp only at h
      split at h
      · cases h
      · rename_i t ht
        obtain ⟨a, ha, h⟩ := bind_eq_ok.1 h
        cases h
        obtain ⟨ha, hat⟩ := implicit_typed hx ha
        have hcomp : Typing.isComputed t := by
          unfold Typing.negateType? at ht
          split at ht <;> cases ht <;> rfl
        exact .unary ha ⟨hcomp, hat, rfl⟩

theorem choice_typed {c : Element} (hc : Typed s none c) (hx : Typed s none x) (hy : Typed s none y)
    (h : choice s c x y = .ok e) : Typed s none e := by
  unfold choice at h
  split at h
  · cases h
  · rename_i hbool
    simp only at h
    split at h
    · cases h
    · obtain ⟨⟨a, b⟩, hboth, h⟩ := bind_eq_ok.1 h
      cases h
      obtain ⟨⟨ha, hat⟩, hb, hbt⟩ := both_typed hx hy hboth
      exact .choose hc ha hb (by simpa using hbool) hat hbt

theorem cast_typed {t : Ty} (hx : Typed s none x) (h : cast s x t = .ok e) : Typed s none e := by
  unfold cast at h
  simp only at h
  split at h
  · rename_i how hhow
    cases h
    split at hhow
    · exact .convert hx (.inr (.inr hhow))
    · exact .convert hx (.inr (.inl hhow))
  · cases h

/-- The tests of a membership test compare the duplicated value with the items. -/
theorem amongList_typed {items : List Element} (hx : Typed s none x)
    (hi : ∀ i ∈ items, Typed s none i)
    (h : amongList s x items = .ok e) : Typed s none e := by
  obtain ⟨tests, htests, h⟩ := bind_eq_ok.1 h
  cases h
  have htest : ∀ t ∈ tests, Typed s (some x.type) t ∧ s.Compared t.type := by
    intro t ht
    obtain ⟨i, him, hcompare⟩ := exists_of_mem_mapM htests t ht
    obtain ⟨hty, hcompared⟩ := compare_typed .duplicate (hi i him) hcompare
    exact ⟨hty, hcompared rfl⟩
  exact .among hx (fun t ht => (htest t ht).1) fun t ht => (htest t ht).2

theorem amongCollection_typed (hx : Typed s none x) (hy : Typed s none y)
    (h : amongCollection s x y = .ok e) :
    Typed s none e := by
  unfold amongCollection at h
  split at h
  · cases h
  · rename_i t ht
    obtain ⟨a, ha, h⟩ := bind_eq_ok.1 h
    cases h
    obtain ⟨ha, hat⟩ := implicit_typed hx ha
    exact .contains hy ha (hat ▸ ht)

theorem indexOne_typed (hx : Typed s none x) (hy : Typed s none y) (h : indexOne s x y = .ok e) :
    Typed s none e := by
  unfold indexOne at h
  split at h
  · cases h
  · rename_i t key ht
    obtain ⟨a, ha, h⟩ := bind_eq_ok.1 h
    cases h
    exact .index hx (implicit_typed hy ha).1 ht
  · rename_i t ht
    split at h
    · cases h
      exact .index hx hy ht
    · cases h

end Build

end Formulary
