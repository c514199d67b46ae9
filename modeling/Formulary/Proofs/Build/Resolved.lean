import Formulary.Proofs.Build.Operated

/-!
# Names keep the typing rules

A name stands for something of the scope: a member of the owner or of the value before it, an
imported function or constant, or a variable. With the operators this gives the main statement: the
element of every tree keeps the typing rules.
-/

namespace Formulary

namespace Build

open Overload (Candidate)

variable {s : Scope} {x e : Element}

def Receiver (s : Scope) (r : Element) : Prop :=
  Typed s none r ∨ ∃ o, s.ownerType = some o ∧ r = .owner o

/-- A candidate that the scope offers for a call: an imported function, or a method of the value it
is called on. Only a typed element can become the first argument of a function. -/
def Offered (s : Scope) (receiver : Option Element) (c : Candidate Member) : Prop :=
  (∃ n f, c.payload = .function n f ∧ Imported s.imports (.function n f) ∧
      (c.extension = true → ∀ r, receiver = some r → Typed s none r)) ∨
    ∃ r n signature, receiver = some r ∧ Receiver s r ∧ c.payload = .method n signature ∧
      .method n signature ∈ s.host.members r.type

theorem convertArguments_typed {paramType? : Nat → Option Ty} {args converted : List Element}
    (hargs : ∀ a ∈ args, Typed s none a) (h : convertArguments s paramType? args = .ok converted) :
    ∀ a ∈ converted, Typed s none a := by
  intro a ha
  obtain ⟨⟨b, i⟩, hb, hconv⟩ := exists_of_mem_mapM h a ha
  have hmem : b ∈ args := (List.mem_zipIdx' hb).2 ▸ List.getElem_mem _
  simp only at hconv
  split at hconv
  · exact (implicit_typed (hargs b hmem) hconv).1
  · cases hconv

/-- The call of the best of the candidates that a scope offers. -/
theorem callBest_typed {receiver : Option Element} {name : String} {args : List Element}
    {cands : List (Candidate Member)} (hargs : ∀ a ∈ args, Typed s none a)
    (hc : ∀ c ∈ cands, Offered s receiver c)
    (h : callBest s receiver name args cands = .ok e) : Typed s none e := by
  unfold callBest at h
  simp only at h
  split at h
  · cases h
  · rename_i best hbest
    have hoffer := hc _ (Overload.resolve_mem hbest)
    split at h
    · rename_i signature t hsig hvalue hres
      obtain ⟨converted, hconv, h⟩ := bind_eq_ok.1 h
      have hargs := convertArguments_typed hargs hconv
      rcases hoffer with ⟨n, f, hpay, himported, hext⟩ | ⟨r, n, sig, rfl, hr, hpay, hmem⟩
      · rw [hpay] at h hvalue
        simp only at h
        split at h
        · rename_i hextends
          split at h
          · rename_i r _ _ _ _
            obtain ⟨a, ha, h⟩ := bind_eq_ok.1 h
            cases h
            refine .call himported hvalue fun b hb => ?_
            rcases List.mem_cons.1 hb with rfl | hb
            · exact (implicit_typed (hext hextends r rfl) ha).1
            · exact hargs b hb
          · cases h
        · cases h
          exact .call himported hvalue hargs
      · rw [hpay] at h hvalue hsig
        cases hsig
        cases h
        rcases hr with hr | ⟨o, howner, rfl⟩
        · exact .invoke hr hmem hvalue hargs
        · exact .invokeOwner howner hmem hvalue hargs
    · cases h

theorem mem_candidates {members : List Member} {access : Access} {extension : Bool}
    {c : Candidate Member}
    (h : c ∈ candidates members access extension) : c.payload ∈ members ∧
    c.extension = extension := by
  obtain ⟨m, hm, hc⟩ := List.mem_filterMap.1 h
  obtain ⟨signature, -, rfl⟩ := Option.map_eq_some_iff.1 hc
  exact ⟨hm, rfl⟩

theorem eq_function_of_mem {m : Member} {members : List Member} (h : m ∈ functionsOf members) :
    m ∈ members ∧ ∃ n f, m = .function n f := by
  obtain ⟨hm, hk⟩ := List.mem_filter.1 h
  cases m with
  | function n f => exact ⟨hm, n, f, rfl⟩
  | _ => simp [Member.kind] at hk

theorem mem_findMembers {t : Ty} {name : String} {caseSensitive : Bool}
    {kinds : List MemberKind} {m : Member}
    (hkinds : kinds ≠ []) (h : m ∈ s.host.findMembers t name caseSensitive kinds) :
    m ∈ s.host.members t ∧ m.kind ∈ kinds := by
  obtain ⟨hm, hk⟩ := List.mem_filter.1 h
  have hempty : kinds.isEmpty = false := by simpa using hkinds
  simp only [hempty, Bool.false_or, Bool.and_eq_true, List.contains_iff_mem] at hk
  exact ⟨hm, hk.2⟩

/-- Methods of what they are called on are offered. -/
theorem offered_methods {r : Element} {name : String} {access : Access} {c : Candidate Member}
    (hr : Receiver s r)
    (h : c ∈ candidates (s.host.findMembers r.type name s.options.caseSensitive [.method]) access
      false) :
    Offered s (some r) c := by
  obtain ⟨hc, -⟩ := mem_candidates h
  obtain ⟨hm, hk⟩ := mem_findMembers (by simp) hc
  generalize hp : c.payload = m at hm hk
  cases m with
  | method n signature => exact .inr ⟨r, n, signature, rfl, hr, hp, hm⟩
  | _ => simp [Member.kind] at hk

/-- Imported functions are offered. -/
theorem offered_functions {receiver : Option Element} {members : List Member} {access : Access}
    {c : Candidate Member} (himported : ∀ m ∈ members, Imported s.imports m)
    (h : c ∈ candidates (functionsOf members) access false) :
    Offered s receiver c := by
  obtain ⟨hc, hext⟩ := mem_candidates h
  obtain ⟨hm, n, f, hf⟩ := eq_function_of_mem hc
  exact .inl ⟨n, f, hf, hf ▸ himported _ hm, fun he => by simp [hext] at he⟩

/-- Functions of the root that are called like methods are offered. -/
theorem offered_extensions {r : Element} {name : String} {p : Member → Bool} {access : Access}
    {c : Candidate Member} (hr : Typed s none r)
    (h : c ∈ candidates ((Imports.extensions s.imports name s.options.caseSensitive).filter p)
      access true) :
    Offered s (some r) c := by
  obtain ⟨hc, -⟩ := mem_candidates h
  obtain ⟨hm, hf⟩ := List.mem_filter.1 (List.mem_filter.1 hc).1
  have hin : c.payload ∈ s.imports := (List.mem_filter.1 hm).1
  generalize hp : c.payload = m at hin hf
  cases m with
  | function n f =>
    exact .inl ⟨n, f, hp, .here hin, fun _ x hx => by cases hx; exact hr⟩
  | _ => simp at hf

theorem readFirst_ok {members : List Member} {access : Access} {receiver : Element}
    (h : readFirst members access receiver = some (.ok e)) :
    ∃ m ∈ members, e = .read m (m.valueType?.getD .null) receiver := by
  unfold readFirst at h
  split at h
  · rename_i m hm
    cases h
    exact ⟨m, List.mem_of_find?_eq_some hm, rfl⟩
  · cases h
  · cases h

/-- What a first name stands for: an element that keeps the rules, or imported members. -/
abbrev Stands (s : Scope) (subject : Subject) : Prop :=
  subject.Holds (Typed s none) fun members => ∀ m ∈ members, Imported s.imports m

theorem imported_of_lookup {name : String} {caseSensitive : Bool} {members : List Member}
    (himported : ∀ m ∈ members, Imported s.imports m) :
    ∀ m ∈ Imports.lookup members name caseSensitive,
    Imported s.imports m := fun m hm => himported m (List.mem_filter.1 hm).1

/-- What a name stands for if it is no value: an imported namespace, or an imported type. -/
theorem scope_or_type_cases {members : List Member} {subject : Subject}
    (h : ((members.filterMap fun m =>
      match m with
      | .namespace n ms => some (Subject.scope n ms)
      | _ => none).getLast?.or (members.filterMap fun m =>
      match m with
      | .type n _ => some (Subject.type n)
      | _ => none).getLast?) = some subject) :
    (∃ n ms, subject = .scope n ms ∧ .namespace n ms ∈ members) ∨ ∃ n, subject = .type n := by
  rcases Option.or_eq_some_iff.1 h with h | ⟨-, h⟩
  · obtain ⟨m, hm, heq⟩ := List.mem_filterMap.1 (List.mem_of_getLast? h)
    cases m with
    | «namespace» n ms =>
      cases heq
      exact .inl ⟨n, ms, rfl, hm⟩
    | _ => cases heq
  · obtain ⟨m, -, heq⟩ := List.mem_filterMap.1 (List.mem_of_getLast? h)
    cases m with
    | type n t =>
      cases heq
      exact .inr ⟨n, rfl⟩
    | _ => cases heq

theorem firstName_stands {name : String} {subject : Subject} (h : firstName s name = .ok subject) :
    Stands s subject := by
  unfold firstName at h
  simp only at h
  split at h
  · rename_i e howned
    cases h
    split at howned
    · rename_i o ho
      obtain ⟨t, ht, rfl⟩ := Option.map_eq_some_iff.1 ho
      obtain ⟨m, hm, rfl⟩ := readFirst_ok howned
      simp only [Scope.ownerMembers, ht] at hm
      obtain ⟨hm, hk⟩ := mem_findMembers (by simp [readable]) hm
      exact .readOwner ht hm hk
    · cases howned
  · split at h
    · rename_i e _ _ _ hconstant
      cases h
      obtain ⟨m, hm, heq⟩ := List.exists_of_findSome?_eq_some hconstant
      have hin := imported_of_lookup (fun m hm => .here hm) m hm
      cases m with
      | constant n t v =>
        cases heq
        exact .imported hin
      | _ => cases heq
    · cases h
      exact .load
    · rename_i hscope
      cases h
      rcases scope_or_type_cases hscope with ⟨n, ms, rfl, hm⟩ | ⟨n, rfl⟩
      · exact fun k hk => .within (imported_of_lookup (fun m hm => .here hm) _ hm) hk
      · trivial
    · cases h
    · cases h

theorem firstCall_typed {name : String} {args : List Element} (hargs : ∀ a ∈ args, Typed s none a)
    (h : firstCall s name args = .ok e) : Typed s none e := by
  have hfunction : ∀ {receiver : Option Element} {access : Access} {c : Candidate Member},
      c ∈ candidates (functionsOf (s.imported name)) access false → Offered s receiver c :=
    offered_functions (imported_of_lookup fun m hm => .here hm)
  have hmethod : ∀ c ∈ candidates (s.ownerMembers name [.method]) s.options.ownerAccess false,
      Offered s (ownerElement s) c := by
    intro c hc
    cases ho : s.ownerType with
    | none =>
      simp only [Scope.ownerMembers, ho] at hc
      exact nomatch hc
    | some o =>
      simp only [Scope.ownerMembers, ho] at hc
      simp only [ownerElement, ho, Option.map_some]
      exact offered_methods (r := .owner o) (.inr ⟨o, ho, rfl⟩) hc
  have hattempt : ∀ {u : Element},
    (if (candidates (s.ownerMembers name [.method]) s.options.ownerAccess false ++
      candidates (functionsOf (s.imported name)) .all false).isEmpty then undefinedName s name
      else callBest s (ownerElement s) name args
        (candidates (s.ownerMembers name [.method]) s.options.ownerAccess false ++
        candidates (functionsOf (s.imported name)) .all false)) = .ok u → Typed s none u := by
    intro u hu
    split at hu
    · cases hu
    · refine callBest_typed hargs (fun c hc => ?_) hu
      rcases List.mem_append.1 hc with hc | hc
      · exact hmethod c hc
      · exact hfunction hc
  unfold firstCall at h
  simp only at h
  split at h
  · split at h
    · cases h
      exact .demand hargs
    · cases h
  · exact hattempt h

theorem first_stands {r : Reference} {subject : Subject}
    (hargs : ∀ args, r.args = some args → ∀ a ∈ args, Typed s none a)
    (h : first s r = .ok subject) : Stands s subject := by
  unfold first at h
  split at h
  · exact firstName_stands h
  · rename_i args heq
    obtain ⟨e, he, rfl⟩ := map_eq_ok.1 h
    exact firstCall_typed (hargs args heq) he

theorem inNamespace_stands {path : String} {members : List Member} {r : Reference}
    {subject : Subject} (himported : ∀ m ∈ members, Imported s.imports m)
    (hargs : ∀ args, r.args = some args → ∀ a ∈ args, Typed s none a)
    (h : inNamespace s path members r = .ok subject) : Stands s subject := by
  have hfound : ∀ m ∈ Imports.lookup members r.name s.options.caseSensitive, Imported s.imports m :=
    imported_of_lookup himported
  unfold inNamespace at h
  simp only at h
  split at h
  · rename_i args heq
    split at h
    · cases h
    · obtain ⟨e, he, rfl⟩ := map_eq_ok.1 h
      exact callBest_typed (hargs args heq) (fun c hc => offered_functions hfound hc) he
  · split at h
    · rename_i found hfirst
      cases h
      obtain ⟨m, hm, heq⟩ := List.exists_of_findSome?_eq_some hfirst
      cases m with
      | constant n t v =>
        cases heq
        exact .imported (hfound _ hm)
      | «namespace» n ms =>
        cases heq
        exact fun k hk => .within (hfound _ hm) hk
      | type n t =>
        cases heq
        trivial
      | _ => cases heq
    · cases h

theorem memberOf_typed {r : Reference} (hx : Typed s none x)
    (hargs : ∀ args, r.args = some args → ∀ a ∈ args, Typed s none a) (h : memberOf s x r = .ok e) :
    Typed s none e := by
  unfold memberOf at h
  simp only at h
  split at h
  · split at h
    · rename_i u hread
      cases h
      obtain ⟨m, hm, rfl⟩ := readFirst_ok hread
      obtain ⟨hm, hk⟩ := mem_findMembers (by simp [readable]) hm
      exact .read hx hm hk
    · cases h
    · cases h
  · rename_i args heq
    split at h
    · cases h
    · refine callBest_typed (hargs args heq) (fun c hc => ?_) h
      rcases List.mem_append.1 hc with hc | hc
      · exact offered_methods (.inl hx) hc
      · exact offered_extensions hx hc

theorem next_stands {subject subject' : Subject} {r : Reference} (hs : Stands s subject)
    (hargs : ∀ args, r.args = some args → ∀ a ∈ args, Typed s none a)
    (h : next s subject r = .ok subject') :
    Stands s subject' := by
  cases subject with
  | value x =>
    obtain ⟨e, he, rfl⟩ := map_eq_ok.1 h
    exact memberOf_typed hs hargs he
  | scope path members => exact inNamespace_stands hs hargs h
  | type path => cases h

/-- Every way of building an element keeps the typing rules. -/
theorem typed_kept (s : Scope) :
    Kept s (fun _ => True) (Typed s none) fun members => ∀ m ∈ members, Imported s.imports m where
  literal _ h := literal_typed h
  logical := logical_typed
  negation := negation_typed
  amongList := amongList_typed
  amongCollection := amongCollection_typed
  shift := shift_typed
  compare hl hr h := (compare_typed hl hr h).1
  arithmetic := arithmetic_typed
  minus := minus_typed
  choice := choice_typed
  cast := cast_typed
  first := first_stands
  next := next_stands
  indexOne := indexOne_typed

/-- The element of a tree keeps the typing rules of its scope. -/
theorem element_typed {t : Grammar.Tree} (h : element s t = .ok e) : Typed s none e :=
  element_holds (typed_kept s) (fun _ _ => trivial) h

end Build

/-! ## Constants of literals

Literals are constants, and only numerals remember how they were written. A minus sign before one of
these is read with it; before anything else it is an operation.
-/

/-- How a constant was written, if it is a numeral. -/
def Element.numeral? : Element → Option NumeralImage
  | .constant _ _ numeral => numeral
  | _ => none

namespace Build

/-- A numeral is a constant. -/
theorem exists_of_number {o : Options} {kind : Lexical.Kind} {image : Text}
    {negated : Bool} {e : Element} (h : number o kind image negated = .ok e) :
    ∃ v, e = .constant (v.type?.getD .null) v (some ⟨kind, image⟩) := by
  simp only [number] at h
  split at h
  · obtain ⟨v, -, h⟩ := bind_eq_ok.1 h
    cases h
    exact ⟨v, rfl⟩
  · split at h
    · obtain ⟨v, -, h⟩ := bind_eq_ok.1 h
      cases h
      exact ⟨v, rfl⟩
    · cases h

/-- A literal is a constant. -/
theorem exists_of_literal {o : Options} {t : Lexical.Token} {e : Element}
    (h : literal o t = .ok e) :
    ∃ type v numeral, e = .constant type v numeral := by
  have hplain : ∀ {type : Ty} {v : Value}, plainConstant type v = .ok e → ∃ type v numeral,
      e = .constant type v numeral := by
    intro type v h
    cases h
    exact ⟨_, _, _, rfl⟩
  unfold literal at h
  simp only at h
  repeat' split at h
  all_goals first
    | exact hplain h
    | cases h
    | (obtain ⟨v, rfl⟩ := exists_of_number h; exact ⟨_, _, _, rfl⟩)

/-- A minus sign before something that is no numeral: an overload, or the operation of the type. -/
def opposite (s : Scope) (e : Element) : Except Failure Element := do
  match ← overloadedUnary? s .negate e with
  | some u => .ok u
  | none =>
    match Typing.negateType? e.type with
    | none => mismatch s!"operator - cannot be applied to {e.type.name}"
    | some t => do
      let e ← s.implicit e t
      .ok (.unary (.negate t s.options.checked) t e)

/-- A minus sign is read with a numeral, and is an operation on everything else. -/
theorem minus_eq (s : Scope) (e : Element) :
    minus s e =
      match e.numeral? with
      | some n => number s.options n.kind n.image true
      | none => opposite s e := by
  rcases e with ⟨type, v, _ | n⟩ | _ | _ | _ | _ | _ | _ | _ | _ | _ | _ | _ | _ | _ | _ | _
  all_goals rfl

/-- A name alone that stands for a value: a member of the owner, an imported constant, or a
variable. -/
theorem firstName_value {s : Scope} {name : String} {e : Element}
    (h : firstName s name = .ok (.value e)) :
    (∃ m t o, e = .read m t (.owner o)) ∨ (∃ t v, e = .constant t v none) ∨ ∃ t,
      e = .variable name t := by
  unfold firstName at h
  simp only at h
  split at h
  · rename_i x howned
    cases h
    split at howned
    · rename_i o ho
      obtain ⟨t, -, rfl⟩ := Option.map_eq_some_iff.1 ho
      obtain ⟨m, -, rfl⟩ := readFirst_ok howned
      exact .inl ⟨_, _, _, rfl⟩
    · cases howned
  · split at h
    · rename_i x _ _ _ hconstant
      cases h
      obtain ⟨m, -, heq⟩ := List.exists_of_findSome?_eq_some hconstant
      cases m with
      | constant n t v =>
        cases heq
        exact .inr (.inl ⟨t, v, rfl⟩)
      | _ => cases heq
    · cases h
      exact .inr (.inr ⟨_, rfl⟩)
    · rename_i hscope
      cases h
      rcases Option.or_eq_some_iff.1 hscope with hscope | ⟨-, hscope⟩
      all_goals
        obtain ⟨m, -, heq⟩ := List.mem_filterMap.1 (List.mem_of_getLast? hscope)
        cases m <;> cases heq
    · cases h
    · cases h

end Build

end Formulary
