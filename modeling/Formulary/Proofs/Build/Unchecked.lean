import Formulary.Proofs.Build.Resolved
import Formulary.Proofs.Build.Likeness
import Formulary.Proofs.Element.Unchecked

/-!
# Building without checks

Whether overflow is tested for does not decide what a text means: every operator, cast, call and
name resolves to the same element up to the tests, or fails with the same words.
-/

namespace Formulary

/-- The scope in which nothing tests for overflow. -/
def Scope.unchecked (s : Scope) : Scope := { s with options := { s.options with checked := false } }

theorem bind_map_like {ε α α' β β' : Type} {x : Except ε α} {x' : Except ε α'}
    {φ : α → α'} {ψ : β → β'} (h : x' = x.map φ) {g : α → Except ε β} {g' : α' → Except ε β'}
    (hg : ∀ a, g' (φ a) = (g a).map ψ) :
    (x' >>= g') = (x >>= g).map ψ := by
  cases x with
  | error e => rw [h]; rfl
  | ok a =>
    rw [h]
    exact hg a

theorem map_map_like {ε α α' β β' : Type} {x : Except ε α} {x' : Except ε α'}
    {φ : α → α'} {ψ : β → β'}
    (h : x' = x.map φ) {g : α → β} {g' : α' → β'} (hg : ∀ a, g' (φ a) = ψ (g a)) :
    x'.map g' = (x.map g).map ψ := by
  cases x with
  | error e => rw [h]; rfl
  | ok a =>
    rw [h]
    exact congrArg Except.ok (hg a)

namespace Typing

variable {host : Host} {ops : Operators} {a b : Ty}

theorem implicit?_unchecked {how : Option Conversion} (h : implicit? host ops a b = some how) :
    how.map Conversion.unchecked = how := by
  unfold implicit? at h
  repeat' split at h
  all_goals cases h
  all_goals rfl

theorem explicit?_unchecked {how : Option Conversion} (h : explicit? host ops a b = some how) :
    how.map Conversion.unchecked = how := by
  unfold explicit? at h
  split at h
  · rename_i hc
    cases h
    exact implicit?_unchecked hc
  · repeat' split at h
    all_goals cases h
    all_goals rfl

/-- A checked cast is the cast with a test. -/
theorem checkedExplicit?_unchecked :
    (checkedExplicit? host ops a b).map (Option.map Conversion.unchecked) =
      explicit? host ops a b := by
  unfold checkedExplicit?
  cases h : explicit? host ops a b with
  | none => rfl
  | some how =>
    have hsame := explicit?_unchecked h
    split
    · rename_i t hnumeric
      cases hnumeric
      split <;> rfl
    · simpa using hsame

end Typing

namespace Build

variable (s : Scope)

theorem implicit_unchecked (e : Element) (t : Ty) :
    s.unchecked.implicit e.unchecked t = (s.implicit e t).map Element.unchecked := by
  simp only [Scope.implicit, Element.type_unchecked, Scope.unchecked]
  split
  · rfl
  · split
    · rename_i how h
      simp [Except.map, Element.unchecked, Typing.implicit?_unchecked h]
    · rfl

theorem both_unchecked (l r : Element) (t : Ty) :
    both s.unchecked l.unchecked r.unchecked t =
      (both s l r t).map (Prod.map Element.unchecked Element.unchecked) := by
  refine bind_map_like (implicit_unchecked s l t) fun l => ?_
  exact bind_map_like (implicit_unchecked s r t) fun r => rfl

theorem overloadedBinary?_unchecked (op : Operator) (l r : Element) :
    overloadedBinary? s.unchecked op l.unchecked r.unchecked =
      (overloadedBinary? s op l r).map (Option.map Element.unchecked) := by
  have hfound : anyOverload? s.unchecked op [l.unchecked.type, r.unchecked.type] =
      (anyOverload? s op [l.type, r.type]).map id := by
    rw [Element.type_unchecked, Element.type_unchecked]
    cases h : anyOverload? s op [l.type, r.type] <;> exact h
  refine bind_map_like hfound fun f => ?_
  cases f with
  | none => rfl
  | some f =>
    simp only [id]
    split
    · refine bind_map_like (implicit_unchecked s l _) fun l => ?_
      exact bind_map_like (implicit_unchecked s r _) fun r => rfl
    · rfl

theorem overloadedUnary?_unchecked (op : Operator) (e : Element) :
    overloadedUnary? s.unchecked op e.unchecked =
      (overloadedUnary? s op e).map (Option.map Element.unchecked) := by
  have hfound : anyOverload? s.unchecked op [e.unchecked.type] =
      (anyOverload? s op [e.type]).map id := by
    rw [Element.type_unchecked]
    cases h : anyOverload? s op [e.type] <;> exact h
  refine bind_map_like hfound fun f => ?_
  cases f with
  | none => rfl
  | some f =>
    simp only [id]
    split
    · exact bind_map_like (implicit_unchecked s e _) fun e => rfl
    · rfl

theorem arithmetic_unchecked (op : Operator) (l r : Element) :
    arithmetic s.unchecked op l.unchecked r.unchecked =
      (arithmetic s op l r).map Element.unchecked := by
  simp only [arithmetic, Element.type_unchecked]
  split
  · simp [Except.map, Element.unchecked, Binary.unchecked]
  · refine bind_map_like (overloadedBinary?_unchecked s op l r) fun found => ?_
    cases found with
    | some e => rfl
    | none =>
      simp only [Option.map_none]
      split
      · split
        · refine bind_map_like (both_unchecked s l r _) fun x => ?_
          simp [Except.map, Element.unchecked, Binary.unchecked]
        · simp only [unfit, Element.type_unchecked]; rfl
      · split
        · simp only [unfit, Element.type_unchecked]; rfl
        · refine bind_map_like (both_unchecked s l r _) fun x => ?_
          simp [Except.map, Element.unchecked, Binary.unchecked, Scope.unchecked]

theorem compare_unchecked (op : Operator) (l r : Element) :
    compare s.unchecked op l.unchecked r.unchecked = (compare s op l r).map Element.unchecked := by
  simp only [compare, Element.type_unchecked]
  split
  · split
    · simp [Except.map, Element.unchecked, Binary.unchecked, Scope.unchecked]
    · simp only [unfit, Element.type_unchecked]; rfl
  · refine bind_map_like (overloadedBinary?_unchecked s op l r) fun found => ?_
    cases found with
    | some e => rfl
    | none =>
      simp only [Option.map_none]
      split
      · refine bind_map_like (both_unchecked s l r _) fun x => ?_
        simp [Except.map, Element.unchecked, Binary.unchecked]
      · simp only [unfit, Element.type_unchecked, Scope.unchecked]
        split
        · split <;> simp [Except.map, Element.unchecked, Binary.unchecked, mismatch, refused]
        · split <;> simp [Except.map, Element.unchecked, Binary.unchecked, mismatch, refused]

theorem shift_unchecked (left : Bool) (l r : Element) :
    shift s.unchecked left l.unchecked r.unchecked = (shift s left l r).map Element.unchecked := by
  simp only [shift, Element.type_unchecked]
  split
  · rfl
  · refine bind_map_like (implicit_unchecked s l _) fun l => ?_
    rw [implicit_unchecked]
    cases s.implicit r (.int .int) with
    | error f => rfl
    | ok count => simp [Except.map, Element.unchecked, Binary.unchecked]

theorem logical_unchecked (op : Operator) (l r : Element) :
    logical s.unchecked op l.unchecked r.unchecked = (logical s op l r).map Element.unchecked := by
  simp only [logical, Element.type_unchecked]
  split
  · cases op <;>
      simp [Except.map, Element.unchecked, Binary.unchecked, Condition.unchecked,
        Element.condition_unchecked]
  · refine bind_map_like (overloadedBinary?_unchecked s op l r) fun found => ?_
    cases found with
    | some e => rfl
    | none =>
      simp only [Option.map_none]
      split
      · simp only [unfit, Element.type_unchecked]; rfl
      · refine bind_map_like (both_unchecked s l r _) fun x => ?_
        simp [Except.map, Element.unchecked, Binary.unchecked]

theorem negation_unchecked (e : Element) :
    negation s.unchecked e.unchecked = (negation s e).map Element.unchecked := by
  simp only [negation, Element.type_unchecked]
  split
  · simp [Except.map, Element.unchecked, Unary.unchecked]
  · split
    · simp [Except.map, Element.unchecked, Unary.unchecked]
    · refine bind_map_like (overloadedUnary?_unchecked s .not e) fun found => ?_
      cases found <;> rfl

theorem map_unchecked_of_constant {x : Except Failure Element}
    (h : ∀ e, x = .ok e → ∃ type v numeral, e = .constant type v numeral) :
    x.map Element.unchecked = x := by
  cases x with
  | error f => rfl
  | ok e =>
    obtain ⟨type, v, numeral, rfl⟩ := h e rfl
    simp [Except.map, Element.unchecked]

theorem literal_unchecked (t : Lexical.Token) :
    literal s.unchecked.options t = (literal s.options t).map Element.unchecked := by
  rw [map_unchecked_of_constant fun e h => exists_of_literal h]
  rfl

theorem minus_unchecked (e : Element) : minus s.unchecked e.unchecked =
    (minus s e).map Element.unchecked := by
  have hnumeral : e.unchecked.numeral? = e.numeral? := by
    cases e <;> simp [Element.unchecked, Element.numeral?]
  rw [minus_eq, minus_eq, hnumeral]
  cases e.numeral? with
  | some n =>
    refine (map_unchecked_of_constant fun x h => ?_).symm
    obtain ⟨v, rfl⟩ := exists_of_number h
    exact ⟨_, _, _, rfl⟩
  | none =>
    refine bind_map_like (overloadedUnary?_unchecked s .negate e) fun found => ?_
    cases found with
    | some u => rfl
    | none =>
      simp only [Option.map_none, Element.type_unchecked]
      split
      · rfl
      · refine bind_map_like (implicit_unchecked s e _) fun x => ?_
        simp [Except.map, Element.unchecked, Unary.unchecked, Scope.unchecked]

theorem choice_unchecked (c x y : Element) :
    choice s.unchecked c.unchecked x.unchecked y.unchecked =
      (choice s c x y).map Element.unchecked := by
  simp only [choice, Element.type_unchecked]
  split
  · rfl
  · have hconverts : ∀ t u, s.unchecked.converts t u = s.converts t u := fun _ _ => rfl
    simp only [hconverts]
    split
    · rfl
    · refine bind_map_like (both_unchecked s x y _) fun p => ?_
      simp [Except.map, Element.unchecked]

theorem cast_unchecked (e : Element) (t : Ty) :
    cast s.unchecked e.unchecked t = (cast s e t).map Element.unchecked := by
  have hfound : Typing.explicit? s.host s.operators e.type t =
      (if s.options.checked then Typing.checkedExplicit? s.host s.operators e.type t
        else Typing.explicit? s.host s.operators e.type t).map
          (Option.map Conversion.unchecked) := by
    split
    · exact Typing.checkedExplicit?_unchecked.symm
    · cases h : Typing.explicit? s.host s.operators e.type t with
      | none => rfl
      | some how => rw [Option.map_some, Typing.explicit?_unchecked h]
  have hplain : (if s.unchecked.options.checked then
    Typing.checkedExplicit? s.unchecked.host s.unchecked.operators e.type t
      else Typing.explicit? s.unchecked.host s.unchecked.operators e.type t) =
      Typing.explicit? s.host s.operators e.type t := rfl
  rw [cast, cast, Element.type_unchecked, hplain]
  generalize (if s.options.checked then Typing.checkedExplicit? s.host s.operators e.type t
    else Typing.explicit? s.host s.operators e.type t) = found at hfound ⊢
  rw [hfound]
  cases found with
  | none => rfl
  | some how => simp [Except.map, Element.unchecked]

theorem mapM_unchecked {f g : Element → Except Failure Element}
    (h : ∀ e, g e.unchecked = (f e).map Element.unchecked)
    (es : List Element) : (es.map Element.unchecked).mapM g =
    (es.mapM f).map (List.map Element.unchecked) := by
  induction es with
  | nil => rfl
  | cons e es ih =>
    rw [List.map_cons, List.mapM_cons, List.mapM_cons]
    exact bind_map_like (h e) fun x => bind_map_like ih fun xs => rfl

theorem amongList_unchecked (x : Element) (items : List Element) :
    amongList s.unchecked x.unchecked (items.map Element.unchecked) =
      (amongList s x items).map Element.unchecked := by
  have htest : ∀ item : Element, compare s.unchecked .equal (.duplicate x.unchecked.type)
    item.unchecked =
      (compare s .equal (.duplicate x.type) item).map Element.unchecked := by
    intro item
    rw [← compare_unchecked, Element.unchecked, Element.type_unchecked]
  refine bind_map_like (mapM_unchecked htest items) fun tests => ?_
  simp [Except.map, Element.unchecked]

theorem amongCollection_unchecked (x c : Element) :
    amongCollection s.unchecked x.unchecked c.unchecked =
      (amongCollection s x c).map Element.unchecked := by
  simp only [amongCollection, Element.type_unchecked]
  split
  · rfl
  · refine bind_map_like (implicit_unchecked s x _) fun x => ?_
    simp [Except.map, Element.unchecked]

theorem indexOne_unchecked (c x : Element) :
    indexOne s.unchecked c.unchecked x.unchecked = (indexOne s c x).map Element.unchecked := by
  simp only [indexOne, Element.type_unchecked]
  split
  · rfl
  · refine bind_map_like (implicit_unchecked s x _) fun x => ?_
    simp [Except.map, Element.unchecked]
  · split
    · simp [Except.map, Element.unchecked]
    · rfl

theorem foldlM_indexOne_unchecked (es : List Element) (c : Element) :
    (es.map Element.unchecked).foldlM (indexOne s.unchecked) c.unchecked =
      (es.foldlM (indexOne s) c).map Element.unchecked := by
  induction es generalizing c with
  | nil => rfl
  | cons e es ih =>
    rw [List.map_cons, List.foldlM_cons, List.foldlM_cons]
    exact bind_map_like (indexOne_unchecked s c e) fun c => ih c

theorem index_unchecked (subject : Subject) (es : List Element) :
    index s.unchecked (subject.image Element.unchecked) (es.map Element.unchecked) =
      (index s subject es).map (Subject.image Element.unchecked) := by
  cases subject with
  | value e => exact map_map_like (foldlM_indexOne_unchecked s es e) fun _ => rfl
  | scope path members =>
    simp only [Subject.image, index, List.isEmpty_map]
    split <;> rfl
  | type path =>
    simp only [Subject.image, index, List.isEmpty_map]
    split <;> rfl

section Calls

theorem convertArguments_unchecked (paramType? : Nat → Option Ty) (args : List Element) :
    convertArguments s.unchecked paramType? (args.map Element.unchecked) =
      (convertArguments s paramType? args).map (List.map Element.unchecked) := by
  unfold convertArguments
  rw [List.zipIdx_map]
  generalize args.zipIdx = pairs
  induction pairs with
  | nil => rfl
  | cons p pairs ih =>
    rw [List.map_cons, List.mapM_cons, List.mapM_cons]
    obtain ⟨a, i⟩ := p
    refine bind_map_like ?_ fun x => bind_map_like ih fun xs => rfl
    dsimp only [Prod.map, id]
    cases paramType? i with
    | none => rfl
    | some t => exact implicit_unchecked s a t

theorem callBest_unchecked (receiver : Option Element) (name : String) (args : List Element)
    (cands : List (Overload.Candidate Member)) :
    callBest s.unchecked (receiver.map Element.unchecked) name (args.map Element.unchecked) cands =
      (callBest s receiver name args cands).map Element.unchecked := by
  have htypes : (args.map Element.unchecked).map Element.type = args.map Element.type := by
    simp [Function.comp_def]
  have hscore : s.unchecked.score = s.score := rfl
  simp only [callBest, htypes, hscore]
  cases Overload.resolve Overload.Scale.double s.score cands (args.map Element.type) with
  | error fault => rfl
  | ok best =>
    simp only
    generalize best.candidate.payload = member
    split
    · rename_i sig t _ _ _
      refine bind_map_like (convertArguments_unchecked s _ args) fun args => ?_
      cases member with
      | function n f =>
        simp only
        split
        · cases receiver with
          | none => rfl
          | some r =>
            cases sig.params with
            | nil => rfl
            | cons p ps =>
              refine bind_map_like (implicit_unchecked s r p) fun r => ?_
              simp [Except.map, Element.unchecked]
        · simp [Except.map, Element.unchecked]
      | _ =>
        cases receiver with
        | none => rfl
        | some r => simp [Except.map, Element.unchecked]
    · rfl

/-- What a name alone stands for computes nothing. -/
theorem firstName_unchecked (name : String) :
    firstName s.unchecked name = (firstName s name).map (Subject.image Element.unchecked) := by
  have hsame : firstName s.unchecked name = firstName s name := rfl
  rw [hsame]
  cases h : firstName s name with
  | error f => rfl
  | ok subject =>
    cases subject with
    | value e =>
      obtain ⟨m, t, o, rfl⟩ | ⟨t, v, rfl⟩ | ⟨t, rfl⟩ := firstName_value h
      all_goals simp [Except.map, Subject.image, Element.unchecked]
    | scope path members => rfl
    | type path => rfl

theorem firstCall_unchecked (name : String) (args : List Element) :
    firstCall s.unchecked name (args.map Element.unchecked) =
      (firstCall s name args).map Element.unchecked := by
  have htypes : (args.map Element.unchecked).map Element.type = args.map Element.type := by
    simp [Function.comp_def]
  have howner : ownerElement s.unchecked = (ownerElement s).map Element.unchecked := by
    unfold ownerElement Scope.unchecked
    cases s.ownerType <;> simp [Element.unchecked]
  have hmembers : s.unchecked.ownerMembers name [.method] = s.ownerMembers name [.method] := rfl
  have himported : s.unchecked.imported name = s.imported name := rfl
  have haccess : s.unchecked.options.ownerAccess = s.options.ownerAccess := rfl
  have hstore : s.unchecked.store = s.store := rfl
  have hundefined : (undefinedName s.unchecked name : Except Failure Element) =
    undefinedName s name := rfl
  simp only [firstCall, htypes, howner, callBest_unchecked, hmembers, himported, haccess,
    hstore, hundefined]
  generalize candidates (s.ownerMembers name [.method]) s.options.ownerAccess false ++
    candidates (functionsOf (s.imported name)) .all false = cands
  generalize s.store.suppliedFunction? name (args.map Element.type) = supplied
  have hattempt : (if cands.isEmpty then undefinedName s name
      else (callBest s (ownerElement s) name args cands).map Element.unchecked) =
      (if cands.isEmpty then undefinedName s name
        else callBest s (ownerElement s) name args cands).map Element.unchecked := by
    split <;> rfl
  rw [hattempt]
  generalize (if cands.isEmpty then undefinedName s name
    else callBest s (ownerElement s) name args cands : Except Failure Element) = attempt
  cases attempt with
  | ok e => rfl
  | error f =>
    cases f with
    | compile e =>
      cases supplied with
      | none => rfl
      | some t =>
        simp only [Except.map]
        split <;> simp [Element.unchecked]
    | _ => rfl

theorem first_unchecked (r : Reference) :
    first s.unchecked (r.image Element.unchecked) =
      (first s r).map (Subject.image Element.unchecked) := by
  obtain ⟨name, args⟩ := r
  cases args with
  | none => exact firstName_unchecked s name
  | some args => exact map_map_like (firstCall_unchecked s name args) fun _ => rfl

theorem inNamespace_unchecked (path : String) (members : List Member) (r : Reference) :
    inNamespace s.unchecked path members (r.image Element.unchecked) =
      (inNamespace s path members r).map (Subject.image Element.unchecked) := by
  obtain ⟨name, args⟩ := r
  have hcase : s.unchecked.options.caseSensitive = s.options.caseSensitive := rfl
  cases args with
  | none =>
    simp only [inNamespace, Reference.image, Option.map_none, hcase]
    split
    · rename_i subject hfound
      obtain ⟨m, -, heq⟩ := List.exists_of_findSome?_eq_some hfound
      cases m <;> cases heq <;> simp [Except.map, Subject.image, Element.unchecked]
    · rfl
  | some args =>
    simp only [inNamespace, Reference.image, Option.map_some, hcase]
    split
    · rfl
    · exact map_map_like (callBest_unchecked s none name args _) fun _ => rfl

theorem memberOf_unchecked (e : Element) (r : Reference) :
    memberOf s.unchecked e.unchecked (r.image Element.unchecked) =
      (memberOf s e r).map Element.unchecked := by
  obtain ⟨name, args⟩ := r
  have hcase : s.unchecked.options.caseSensitive = s.options.caseSensitive := rfl
  have haccess : accessTo s.unchecked e.type = accessTo s e.type := rfl
  have hhost : s.unchecked.host = s.host := rfl
  have himports : s.unchecked.imports = s.imports := rfl
  have hconverts : s.unchecked.converts = s.converts := rfl
  have hundefined : (undefinedMember s.unchecked e.type name : Except Failure Element) =
    undefinedMember s e.type name := rfl
  cases args with
  | none =>
    simp only [memberOf, Reference.image, Option.map_none, Element.type_unchecked, hcase, haccess,
      hhost, hundefined]
    generalize s.host.findMembers e.type name s.options.caseSensitive readable = members
    unfold readFirst
    cases members.find? (·.isAccessible (accessTo s e.type)) with
    | some m => simp [Except.map, Element.unchecked]
    | none => cases members.getLast? <;> rfl
  | some args =>
    simp only [memberOf, Reference.image, Option.map_some, Element.type_unchecked, hcase, haccess,
      hhost, himports, hconverts, hundefined]
    split
    · rfl
    · exact callBest_unchecked s (some e) name args _

theorem next_unchecked (subject : Subject) (r : Reference) :
    next s.unchecked (subject.image Element.unchecked) (r.image Element.unchecked) =
      (next s subject r).map (Subject.image Element.unchecked) := by
  cases subject with
  | value e => exact map_map_like (memberOf_unchecked s e r) fun _ => rfl
  | scope path members => exact inNamespace_unchecked s path members r
  | type path => rfl

end Calls

theorem toOption_of_eq_map {ε α β : Type} {x : Except ε α} {y : Except ε β} {φ : α → β}
    (h : y = x.map φ) :
    y.toOption = x.toOption.map φ := by
  cases x <;> rw [h] <;> rfl

/-- A scope without checks resolves everything as the scope does, up to the tests. -/
theorem mirrors_unchecked : (resolutionOf s).Mirrors Element.unchecked id
    (resolutionOf s.unchecked) where
  literal t := toOption_of_eq_map (literal_unchecked s t)
  logical op x y := toOption_of_eq_map (logical_unchecked s op x y)
  negation x := toOption_of_eq_map (negation_unchecked s x)
  amongList x items := toOption_of_eq_map (amongList_unchecked s x items)
  amongCollection x c := toOption_of_eq_map (amongCollection_unchecked s x c)
  shift left x y := toOption_of_eq_map (shift_unchecked s left x y)
  compare op x y := toOption_of_eq_map (compare_unchecked s op x y)
  arithmetic op x y := toOption_of_eq_map (arithmetic_unchecked s op x y)
  minus x := toOption_of_eq_map (minus_unchecked s x)
  choice c x y := toOption_of_eq_map (choice_unchecked s c x y)
  cast x t := toOption_of_eq_map (cast_unchecked s x t)
  type path := rfl
  first x := toOption_of_eq_map (first_unchecked s x)
  next subject x := toOption_of_eq_map (next_unchecked s subject x)
  index subject es := toOption_of_eq_map (index_unchecked s subject es)
  settle subject := by
    cases subject <;> rfl

/-- A tree is built without checks to its element without tests. -/
theorem element_unchecked (t : Grammar.Tree) :
    (element s.unchecked t).toOption = (element s t).toOption.map Element.unchecked := by
  have hwalk := (mirrors_unchecked s).element_image t
  rw [Grammar.Tree.moved_id] at hwalk
  rw [← Resolution.outcome_element, ← Resolution.outcome_element, toOption_outcome,
    toOption_outcome]
  exact hwalk

end Build

end Formulary
