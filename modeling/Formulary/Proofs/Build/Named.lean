import Formulary.Proofs.Build.Resolved
import Formulary.Proofs.Element.Within

/-!
# What names bring into elements

Operators, calls and conversions add nothing to an element that names a member or a variable: those
come from names alone. So a property of elements that reads, calls, variables and functions supplied
on demand have, and that everything else passes on, holds of the element of every tree.
-/

namespace Formulary

/-- Whether an element stands for a name: of a member that is read or called, of a variable, of a
function supplied on demand. -/
def Element.isNamed : Element → Bool
  | .read .. | .invoke .. | .variable .. | .demand .. => true
  | _ => false

/-- A property that elements pass on to those they are made of, and take from them unless they stand
for a name. -/
structure Element.Closed (P : Element → Prop) : Prop where
  child : ∀ {e x}, P e → x ∈ e.children → P x
  plain : ∀ {e : Element}, e.isNamed = false → (∀ x ∈ e.children, P x) → P e

theorem Element.closed_all {P : Element → Prop} (h : ∀ e : Element, e.isNamed = false → P e) :
    Closed (All P) where
  child he hx := he.child hx
  plain he hchildren := all_iff.2 ⟨h _ he, hchildren⟩

namespace Build

open Overload (Candidate)

/-- What is built, if anything is, has a property. -/
def Ensures {α : Type} (P : α → Prop) (x : Except Failure α) : Prop := ∀ a, x = .ok a → P a

namespace Ensures

variable {α β : Type} {P : α → Prop}

theorem ok {a : α} (h : P a) : Ensures P (.ok a) := by
  rintro _ ⟨⟩
  exact h

theorem error (f : Failure) : Ensures P (.error f) := nofun

theorem bind {Q : β → Prop} {x : Except Failure β} {f : β → Except Failure α} (hx : Ensures Q x)
    (hf : ∀ b, Q b → Ensures P (f b)) : Ensures P (x >>= f) := by
  intro a ha
  obtain ⟨b, hb, ha⟩ := bind_eq_ok.1 ha
  exact hf b (hx b hb) a ha

end Ensures

open Element (Closed)

section Operators

variable {s : Scope} {P : Element → Prop} {op : Operator} {t : Ty} {x y : Element}

theorem implicit_ensures (closed : Closed P) (hx : P x) : Ensures P (s.implicit x t) := by
  unfold Scope.implicit
  split
  · exact .ok hx
  · split
    · exact .ok (closed.plain rfl (by simpa [Element.children] using hx))
    · exact .error _

theorem both_ensures (closed : Closed P) (hx : P x) (hy : P y) :
    Ensures (fun p => P p.1 ∧ P p.2) (both s x y t) :=
  .bind (implicit_ensures closed hx) fun _ ha =>
    .bind (implicit_ensures closed hy) fun _ hb => .ok ⟨ha, hb⟩

theorem binary_closed (closed : Closed P) (hx : P x) (hy : P y) {b : Binary} :
    P (.binary b t x y) :=
  closed.plain rfl (by simp [Element.children, hx, hy])

theorem unary_closed (closed : Closed P) (hx : P x) {u : Unary} : P (.unary u t x) :=
  closed.plain rfl (by simp [Element.children, hx])

theorem overloadedBinary?_ensures (closed : Closed P) (hx : P x) (hy : P y) :
    Ensures (fun found => ∀ e ∈ found, P e) (overloadedBinary? s op x y) := by
  refine .bind (Q := fun _ => True) (fun _ _ => trivial) fun found _ => ?_
  cases found with
  | none => exact .ok nofun
  | some f =>
    simp only
    split
    · refine .bind (implicit_ensures closed hx) fun a ha =>
        .bind (implicit_ensures closed hy) fun b hb => .ok ?_
      rintro _ ⟨⟩
      exact binary_closed closed ha hb
    · exact .ok nofun

theorem overloadedUnary?_ensures (closed : Closed P) (hx : P x) :
    Ensures (fun found => ∀ e ∈ found, P e) (overloadedUnary? s op x) := by
  refine .bind (Q := fun _ => True) (fun _ _ => trivial) fun found _ => ?_
  cases found with
  | none => exact .ok nofun
  | some f =>
    simp only
    split
    · refine .bind (implicit_ensures closed hx) fun a ha => .ok ?_
      rintro _ ⟨⟩
      exact unary_closed closed ha
    · exact .ok nofun

theorem arithmetic_ensures (closed : Closed P) (hx : P x) (hy : P y) :
    Ensures P (arithmetic s op x y) := by
  unfold arithmetic
  split
  · exact .ok (binary_closed closed hx hy)
  · refine .bind (overloadedBinary?_ensures closed hx hy) fun found hfound => ?_
    cases found with
    | some e => exact .ok (hfound e rfl)
    | none =>
      simp only
      split
      · split
        · exact .bind (both_ensures closed hx hy) fun _ h => .ok (binary_closed closed h.1 h.2)
        · exact .error _
      · split
        · exact .error _
        · exact .bind (both_ensures closed hx hy) fun _ h => .ok (binary_closed closed h.1 h.2)

theorem compare_ensures (closed : Closed P) (hx : P x) (hy : P y) :
    Ensures P (compare s op x y) := by
  unfold compare
  split
  · split
    · exact .ok (binary_closed closed hx hy)
    · exact .error _
  · refine .bind (overloadedBinary?_ensures closed hx hy) fun found hfound => ?_
    cases found with
    | some e => exact .ok (hfound e rfl)
    | none =>
      simp only
      split
      · exact .bind (both_ensures closed hx hy) fun _ h => .ok (binary_closed closed h.1 h.2)
      · repeat' split
        all_goals first | exact .ok (binary_closed closed hx hy) | exact .error _

theorem shift_ensures (closed : Closed P) {left : Bool} (hx : P x) (hy : P y) :
    Ensures P (shift s left x y) := by
  unfold shift
  split
  · exact .error _
  · refine .bind (implicit_ensures closed hx) fun a ha => ?_
    split
    · rename_i count hcount
      exact .ok (binary_closed closed ha (implicit_ensures closed hy count hcount))
    · exact .error _

/-- The operands of an element as a condition are the element itself or what it is made of. -/
theorem operands_closed (closed : Closed P) (hx : P x) : ∀ e ∈ x.condition.operands, P e := by
  cases x with
  | logic c => exact fun e he => closed.child hx he
  | _ =>
    intro e he
    obtain rfl := List.mem_singleton.1 he
    exact hx

theorem logical_ensures (closed : Closed P) (hx : P x) (hy : P y) :
    Ensures P (logical s op x y) := by
  have hjoin : ∀ o : Logic, P (.logic (.join o x.condition y.condition)) := by
    refine fun o => closed.plain rfl fun e he => ?_
    rcases List.mem_append.1 he with he | he
    · exact operands_closed closed hx e he
    · exact operands_closed closed hy e he
  unfold logical
  split
  · split
    · exact .ok (hjoin .and)
    · exact .ok (hjoin .or)
    · exact .ok (binary_closed closed hx hy)
  · refine .bind (overloadedBinary?_ensures closed hx hy) fun found hfound => ?_
    cases found with
    | some e => exact .ok (hfound e rfl)
    | none =>
      simp only
      split
      · exact .error _
      · exact .bind (both_ensures closed hx hy) fun _ h => .ok (binary_closed closed h.1 h.2)

theorem negation_ensures (closed : Closed P) (hx : P x) : Ensures P (negation s x) := by
  unfold negation
  split
  · exact .ok (unary_closed closed hx)
  · split
    · exact .ok (unary_closed closed hx)
    · refine .bind (overloadedUnary?_ensures closed hx) fun found hfound => ?_
      cases found with
      | some e => exact .ok (hfound e rfl)
      | none => exact .error _

theorem constant_closed (closed : Closed P) {v : Value} {numeral : Option NumeralImage} :
    P (.constant t v numeral) :=
  closed.plain rfl nofun

theorem minus_ensures (closed : Closed P) (hx : P x) : Ensures P (minus s x) := by
  unfold minus
  split
  · intro e he
    obtain ⟨v, rfl⟩ := exists_of_number he
    exact constant_closed closed
  · refine .bind (overloadedUnary?_ensures closed hx) fun found hfound => ?_
    cases found with
    | some e => exact .ok (hfound e rfl)
    | none =>
      simp only
      split
      · exact .error _
      · exact .bind (implicit_ensures closed hx) fun a ha => .ok (unary_closed closed ha)

theorem choice_ensures (closed : Closed P) {c : Element} (hc : P c) (hx : P x) (hy : P y) :
    Ensures P (choice s c x y) := by
  unfold choice
  split
  · exact .error _
  · simp only
    split
    · exact .error _
    · refine .bind (both_ensures closed hx hy) fun p hp => .ok (closed.plain rfl ?_)
      simp [Element.children, hc, hp.1, hp.2]

theorem cast_ensures (closed : Closed P) (hx : P x) : Ensures P (cast s x t) := by
  unfold cast
  simp only
  split
  · exact .ok (closed.plain rfl (by simpa [Element.children] using hx))
  · exact .error _

theorem amongList_ensures (closed : Closed P) {items : List Element} (hx : P x)
    (hitems : ∀ i ∈ items, P i) :
    Ensures P (amongList s x items) := by
  intro e he
  obtain ⟨tests, htests, he⟩ := bind_eq_ok.1 he
  cases he
  refine closed.plain rfl fun y hy => ?_
  rcases List.mem_cons.1 hy with rfl | hy
  · exact hx
  · obtain ⟨item, hitem, htest⟩ := exists_of_mem_mapM htests y hy
    have hduplicate : P (.duplicate x.type) := closed.plain rfl nofun
    exact compare_ensures closed hduplicate (hitems item hitem) y htest

theorem amongCollection_ensures (closed : Closed P) (hx : P x) (hy : P y) :
    Ensures P (amongCollection s x y) := by
  unfold amongCollection
  split
  · exact .error _
  · refine .bind (implicit_ensures closed hx) fun a ha => .ok (closed.plain rfl ?_)
    simp [Element.children, ha, hy]

theorem indexOne_ensures (closed : Closed P) (hx : P x) (hy : P y) :
    Ensures P (indexOne s x y) := by
  unfold indexOne
  split
  · exact .error _
  · refine .bind (implicit_ensures closed hy) fun a ha => .ok (closed.plain rfl ?_)
    simp [Element.children, ha, hx]
  · split
    · exact .ok (closed.plain rfl (by simp [Element.children, hx, hy]))
    · exact .error _

theorem literal_ensures (closed : Closed P) {o : Options} {token : Lexical.Token} :
    Ensures P (literal o token) := by
  intro e he
  obtain ⟨_, _, _, rfl⟩ := exists_of_literal he
  exact constant_closed closed

theorem convertArguments_ensures (closed : Closed P) {paramType? : Nat → Option Ty}
    {args : List Element}
    (hargs : ∀ a ∈ args, P a) : Ensures (fun converted => ∀ a ∈ converted, P a)
    (convertArguments s paramType? args) := by
  intro converted h a ha
  obtain ⟨⟨b, i⟩, hb, hconv⟩ := exists_of_mem_mapM h a ha
  have hmem : b ∈ args := (List.mem_zipIdx' hb).2 ▸ List.getElem_mem _
  simp only at hconv
  split at hconv
  · exact implicit_ensures closed (hargs b hmem) a hconv
  · cases hconv

end Operators

/-- A property that all names of a scope bring in: members that may be accessed, variables of the
types they have, and functions supplied on demand. -/
structure Named (s : Scope) (P : Element → Prop) : Prop where
  closed : Closed P
  read : ∀ {m r}, P r → m ∈ s.host.members r.type → m.isAccessible (accessTo s r.type) = true →
    P (.read m (m.valueType?.getD .null) r)
  invoke : ∀ {name signature spread t r args}, P r →
    .method name signature ∈ s.host.members r.type →
    (Member.method name signature).isAccessible (accessTo s r.type) = true → (∀ a ∈ args, P a) →
    P (.invoke name signature spread t r args)
  load : ∀ {name t}, (s.store.typeOf? name).or (s.store.suppliedType? name) = some t →
    P (.variable name t)
  demand : ∀ {name t args}, s.store.suppliedFunction? name (args.map Element.type) = some t →
    (∀ a ∈ args, P a) →
    P (.demand name t args)

section Names

variable {s : Scope} {P : Element → Prop}

/-- The owner can be accessed as its options say. -/
theorem accessTo_owner {o : Ty} (h : s.ownerType = some o) :
    accessTo s o = s.options.ownerAccess := by
  simp [accessTo, h]

/-- A candidate for a call on some receiver: a function, or a method that can be accessed if the
candidate can. -/
def Callable (s : Scope) (receiver : Option Element) (c : Candidate Member) : Prop :=
  (∃ n f, c.payload = .function n f) ∨ ∃ r name signature, receiver = some r ∧
    c.payload = .method name signature ∧
    .method name signature ∈ s.host.members r.type ∧
    (c.accessible = true → (Member.method name signature).isAccessible (accessTo s r.type) = true)

theorem callBest_ensures (named : Named s P) {receiver : Option Element} {name : String}
    {args : List Element}
    {cands : List (Candidate Member)} (hreceiver : ∀ r, receiver = some r → P r)
    (hargs : ∀ a ∈ args, P a) (hcands : ∀ c ∈ cands, Callable s receiver c) :
    Ensures P (callBest s receiver name args cands) := by
  unfold callBest
  simp only
  split
  · exact .error _
  · rename_i best hbest
    obtain ⟨hmem, haccessible⟩ := Overload.resolve_accessible hbest
    split
    · rename_i signature t hsig hvalue hres
      refine .bind (convertArguments_ensures named.closed hargs) fun converted hconverted => ?_
      rcases hcands _ hmem with ⟨n, f, hpay⟩ | ⟨r, n, sig, rfl, hpay, hmember, haccess⟩
      · rw [hpay]
        simp only
        split
        · split
          · refine .bind (implicit_ensures named.closed (hreceiver _ rfl)) fun a ha =>
              .ok (named.closed.plain rfl ?_)
            simpa [Element.children] using ⟨ha, hconverted⟩
          · exact .error _
        · exact .ok (named.closed.plain rfl hconverted)
      · rw [hpay] at hsig ⊢
        cases hsig
        exact .ok (named.invoke (hreceiver r rfl) hmember (haccess haccessible) hconverted)
    · exact .error _

/-- Methods of what they are called on, with the access that there is to it. -/
theorem callable_methods {r : Element} {name : String} {c : Candidate Member}
    (h : c ∈ candidates (s.host.findMembers r.type name s.options.caseSensitive [.method])
      (accessTo s r.type) false) :
    Callable s (some r) c := by
  obtain ⟨m, hm, hc⟩ := List.mem_filterMap.1 h
  obtain ⟨signature, -, rfl⟩ := Option.map_eq_some_iff.1 hc
  obtain ⟨hmember, hkind⟩ := mem_findMembers (by simp) hm
  cases m with
  | method n sig => exact .inr ⟨r, n, sig, rfl, rfl, hmember, id⟩
  | _ => simp [Member.kind] at hkind

theorem callable_functions {receiver : Option Element} {members : List Member} {access : Access}
    {extension : Bool} {c : Candidate Member} (hmembers : ∀ m ∈ members, ∃ n f, m = .function n f)
    (h : c ∈ candidates members access extension) : Callable s receiver c :=
  .inl (hmembers _ (mem_candidates h).1)

theorem readFirst_accessible {members : List Member} {access : Access} {receiver e : Element}
    (h : readFirst members access receiver = some (.ok e)) :
    ∃ m ∈ members, m.isAccessible access = true ∧
      e = .read m (m.valueType?.getD .null) receiver := by
  unfold readFirst at h
  split at h
  · rename_i m hm
    cases h
    have haccess : m.isAccessible access = true := by simpa using List.find?_some hm
    exact ⟨m, List.mem_of_find?_eq_some hm, haccess, rfl⟩
  · cases h
  · cases h

theorem owner_closed (closed : Closed P) {o : Ty} : P (.owner o) := closed.plain rfl nofun

/-- A property of the element that a chain stands for, if it stands for one. -/
abbrev Bears (P : Element → Prop) (subject : Subject) : Prop := subject.Holds P fun _ => True

theorem firstName_ensures (named : Named s P) {name : String} :
    Ensures (Bears P) (firstName s name) := by
  intro subject h
  unfold firstName at h
  simp only at h
  split at h
  · rename_i e howned
    cases h
    split at howned
    · rename_i o ho
      obtain ⟨t, ht, rfl⟩ := Option.map_eq_some_iff.1 ho
      obtain ⟨m, hm, haccess, rfl⟩ := readFirst_accessible howned
      simp only [Scope.ownerMembers, ht] at hm
      rw [← accessTo_owner ht] at haccess
      exact named.read (owner_closed named.closed)
        (mem_findMembers (by simp [readable]) hm).1 haccess
    · cases howned
  · split at h
    · rename_i e _ _ _ hconstant
      cases h
      obtain ⟨m, -, heq⟩ := List.exists_of_findSome?_eq_some hconstant
      cases m with
      | constant n t v =>
        cases heq
        exact constant_closed named.closed
      | _ => cases heq
    · rename_i htype
      cases h
      exact named.load htype
    · rename_i hscope
      cases h
      obtain ⟨n, ms, rfl, -⟩ | ⟨n, rfl⟩ := scope_or_type_cases hscope
      · trivial
      · trivial
    · cases h
    · cases h

theorem firstCall_ensures (named : Named s P) {name : String} {args : List Element}
    (hargs : ∀ a ∈ args, P a) :
    Ensures P (firstCall s name args) := by
  have hfunction : ∀ c ∈ candidates (functionsOf (s.imported name)) .all false,
      Callable s (ownerElement s) c :=
    fun c hc => callable_functions (fun m hm => (eq_function_of_mem hm).2) hc
  have hmethod : ∀ c ∈ candidates (s.ownerMembers name [.method]) s.options.ownerAccess false,
      Callable s (ownerElement s) c := by
    intro c hc
    cases ho : s.ownerType with
    | none =>
      simp only [Scope.ownerMembers, ho] at hc
      cases hc
    | some o =>
      simp only [Scope.ownerMembers, ho, ← accessTo_owner ho] at hc
      simp only [ownerElement, ho, Option.map_some]
      exact callable_methods (r := .owner o) hc
  have hreceiver : ∀ r, ownerElement s = some r → P r := by
    intro r hr
    obtain ⟨o, -, rfl⟩ := Option.map_eq_some_iff.1 hr
    exact owner_closed named.closed
  intro e h
  unfold firstCall at h
  simp only at h
  split at h
  · rename_i t _ hsupplied
    split at h
    · cases h
      exact named.demand hsupplied hargs
    · cases h
  · split at h
    · cases h
    · refine callBest_ensures named hreceiver hargs (fun c hc => ?_) e h
      rcases List.mem_append.1 hc with hc | hc
      · exact hmethod c hc
      · exact hfunction c hc

theorem first_ensures (named : Named s P) {r : Reference}
    (hargs : ∀ args, r.args = some args → ∀ a ∈ args, P a) :
    Ensures (Bears P) (first s r) := by
  intro subject h
  unfold first at h
  split at h
  · exact firstName_ensures named subject h
  · rename_i args heq
    obtain ⟨e, he, rfl⟩ := map_eq_ok.1 h
    exact firstCall_ensures named (hargs args heq) e he

theorem inNamespace_ensures (named : Named s P) {path : String}
    {members : List Member} {r : Reference} (hargs : ∀ args, r.args = some args → ∀ a ∈ args, P a) :
    Ensures (Bears P) (inNamespace s path members r) := by
  intro subject h
  unfold inNamespace at h
  simp only at h
  split at h
  · rename_i args heq
    split at h
    · cases h
    · obtain ⟨e, he, rfl⟩ := map_eq_ok.1 h
      exact callBest_ensures named (fun _ hr => by cases hr) (hargs args heq)
        (fun c hc => callable_functions (fun m hm => (eq_function_of_mem hm).2) hc) e he
  · split at h
    · rename_i found hfirst
      cases h
      obtain ⟨m, -, heq⟩ := List.exists_of_findSome?_eq_some hfirst
      cases m with
      | constant n t v =>
        cases heq
        exact constant_closed named.closed
      | «namespace» n ms =>
        cases heq
        trivial
      | type n t =>
        cases heq
        trivial
      | _ => cases heq
    · cases h

theorem memberOf_ensures (named : Named s P) {x : Element} {r : Reference} (hx : P x)
    (hargs : ∀ args, r.args = some args → ∀ a ∈ args, P a) : Ensures P (memberOf s x r) := by
  intro e h
  unfold memberOf at h
  simp only at h
  split at h
  · split at h
    · rename_i u hread
      cases h
      obtain ⟨m, hm, haccess, rfl⟩ := readFirst_accessible hread
      exact named.read hx (mem_findMembers (by simp [readable]) hm).1 haccess
    · cases h
    · cases h
  · rename_i args heq
    split at h
    · cases h
    · refine callBest_ensures named (fun y hy => by cases hy; exact hx) (hargs args heq)
        (fun c hc => ?_) e h
      rcases List.mem_append.1 hc with hc | hc
      · exact callable_methods hc
      · refine callable_functions (fun m hm => ?_) hc
        have hfunction := (List.mem_filter.1 (List.mem_filter.1 hm).1).2
        cases m with
        | function n f => exact ⟨n, f, rfl⟩
        | _ => simp at hfunction

theorem next_ensures (named : Named s P) {subject : Subject} {r : Reference} (hs : Bears P subject)
    (hargs : ∀ args, r.args = some args → ∀ a ∈ args, P a) :
    Ensures (Bears P) (next s subject r) := by
  intro subject' h
  cases subject with
  | value x =>
    obtain ⟨e, he, rfl⟩ := map_eq_ok.1 h
    exact memberOf_ensures named hs hargs e he
  | scope path members => exact inNamespace_ensures named hargs subject' h
  | type path => cases h

/-- What all names of a scope bring in is kept by every way of building an element. -/
theorem Named.kept (named : Named s P) : Kept s (fun _ => True) P fun _ => True where
  literal _ h := literal_ensures named.closed _ h
  logical hl hr h := logical_ensures named.closed hl hr _ h
  negation hx h := negation_ensures named.closed hx _ h
  amongList hx hitems h := amongList_ensures named.closed hx hitems _ h
  amongCollection hx hc h := amongCollection_ensures named.closed hx hc _ h
  shift hl hr h := shift_ensures named.closed hl hr _ h
  compare hl hr h := compare_ensures named.closed hl hr _ h
  arithmetic hl hr h := arithmetic_ensures named.closed hl hr _ h
  minus hx h := minus_ensures named.closed hx _ h
  choice hc hx hy h := choice_ensures named.closed hc hx hy _ h
  cast hx h := cast_ensures named.closed hx _ h
  first hargs h := first_ensures named hargs _ h
  next hs hargs h := next_ensures named hs hargs _ h
  indexOne hx hi h := indexOne_ensures named.closed hx hi _ h

/-- What all names of a scope bring in holds of the element of every tree. -/
theorem Named.element (named : Named s P) {t : Grammar.Tree} {e : Element}
    (h : element s t = .ok e) : P e :=
  element_holds named.kept (fun _ _ => trivial) h

end Names

end Build

end Formulary
