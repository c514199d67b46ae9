import Formulary.Proofs.Build.Resolution
import Formulary.Proofs.Build.Resolved
import Formulary.Proofs.Host.Calls
import Formulary.Proofs.Typing.Overloads

/-!
# Names and operators fail with compile errors

Every operator, literal and name is resolved, or refused with a compile error that has no position
yet and whose reason is one of meaning, not of syntax. A call could break down where it chooses
among candidates, where it looks for the type of a parameter and where it looks for the value it is
called on; the candidates that a scope offers rule all of this out, unless one of them is an
extension whose only parameter is variadic.
-/

namespace Formulary

def Signature.Regular (s : Signature) : Prop :=
  s.variadic = true → ∃ t, s.params.getLast? = some (.slice t)

def Member.Regular (m : Member) : Prop :=
  ∀ signature, m.signature? = some signature → signature.Regular

def Function.Hollow (f : Function) : Prop :=
  f.signature.variadic = true ∧ f.signature.params.length = 1

/-- What a scope is made of can be declared, and no function of its root has a variadic parameter
only. -/
structure Scope.Regular (s : Scope) : Prop where
  methods : ∀ t, ∀ m ∈ s.host.methodSet t, m.2.Regular
  functions : ∀ m, Imported s.imports m → m.Regular
  whole : ∀ n f, .function n f ∈ s.imports → ¬f.Hollow

/-- The members of a type can be declared if its methods can. -/
theorem Scope.Regular.members {s : Scope} (regular : s.Regular) {t : Ty} {m : Member}
    (h : m ∈ s.host.members t) : m.Regular := by
  intro signature hsignature
  rcases Host.mem_members h with h | ⟨name, called, hcalled, rfl | ⟨rfl, -⟩⟩
  · unfold Host.fieldsOf at h
    split at h
    · obtain ⟨field, -, rfl⟩ := List.mem_map.1 h
      cases hsignature
    · cases h
  · obtain rfl := Option.some.inj hsignature
    exact regular.methods t _ hcalled
  · obtain rfl := Option.some.inj hsignature
    exact regular.methods t _ hcalled

/-- Whatever match a resolution gives, each argument has a type that it is converted to, and is
rated by it. -/
theorem Overload.resolve_converts {α σ : Type} {scale : Scale σ} {score : Ty → Ty → Int}
    {cs : List (Candidate α)}
    {args : List Ty} {m : Match α σ} (h : resolve scale score cs args = .ok m) {i : Nat} {a : Ty}
    (ha : args[i]? = some a) : ∃ t, m.paramType? i = some t ∧ 0 ≤ score a t := by
  obtain ⟨found, hfound, hm, -⟩ := mem_of_resolve h
  exact fit_converts ((mem_matches? hfound).1 hm).2 ha m.index

/-- An outcome that is as it should be, or a compile error. -/
def Orderly {α : Type} (x : Except Failure α) (P : α → Prop) : Prop :=
  match x with
  | .ok a => P a
  | .error f => ∃ e, f = .compile e

namespace Orderly

variable {α β : Type} {P : α → Prop} {Q : β → Prop} {x : Except Failure α}

theorem bind (h : Orderly x P) {f : α → Except Failure β} (hf : ∀ a, P a → Orderly (f a) Q) :
    Orderly (x >>= f) Q := by
  cases x with
  | ok a => exact hf a h
  | error f => exact h

theorem mismatch (detail : String) : Orderly (mismatch detail) P := ⟨_, rfl⟩

end Orderly

/-- Whether a reason is one of meaning: what types, names, accesses, casts, literals and results are
blamed for. -/
def Reason.isOfMeaning : Reason → Bool
  | .typeMismatch | .undefinedName | .noReturnValue | .invalidCast | .ambiguousMatch | .accessDenied
  | .invalidFormat
  | .constantOverflow => true
  | .syntaxError | .tooComplex | .other _ => false

/-- A failure that is a compile error of meaning with a position of some kind, or a breakdown, which
may happen only under a condition. -/
def Failure.Settled (position : Option Nat → Prop) (breaks : Prop) (f : Failure) : Prop :=
  (∃ e, f = .compile e ∧ e.reason.isOfMeaning = true ∧ position e.position) ∨
    (∃ words, f = .broken words) ∧ breaks

/-- An outcome that is as it should be, or a compile error of meaning without a position, or a
breakdown that may happen only under a condition. -/
def Fresh {α : Type} (breaks : Prop) (x : Except Failure α) (P : α → Prop) : Prop :=
  match x with
  | .ok a => P a
  | .error f => f.Settled (· = none) breaks

namespace Fresh

variable {α β : Type} {P : α → Prop} {Q : β → Prop} {x : Except Failure α} {breaks : Prop}
  {reason : Reason}

theorem bind (h : Fresh breaks x P) {f : α → Except Failure β}
    (hf : ∀ a, P a → Fresh breaks (f a) Q) :
    Fresh breaks (x >>= f) Q := by
  cases x with
  | ok a => exact hf a h
  | error f => exact h

theorem map (h : Fresh breaks x P) {f : α → β} (hf : ∀ a, P a → Q (f a)) :
    Fresh breaks (x.map f) Q := by
  cases x with
  | ok a => exact hf a h
  | error f => exact h

theorem refused (h : reason.isOfMeaning = true) (detail : String) :
    Fresh breaks (refused reason detail) P :=
  .inl ⟨_, rfl, h, rfl⟩

theorem refusedAt (h : reason.isOfMeaning = true) (detail token : String) :
    Fresh breaks (refusedAt reason detail token) P := .inl ⟨_, rfl, h, rfl⟩

theorem mismatch (detail : String) : Fresh breaks (mismatch detail) P := refused rfl detail

theorem mapM {l : List β} {f : β → Except Failure α}
    (h : ∀ b ∈ l, Fresh breaks (f b) fun _ => True) :
    Fresh breaks (l.mapM f) fun _ => True := by
  induction l with
  | nil => trivial
  | cons b l ih =>
    rw [List.mapM_cons]
    refine (h b List.mem_cons_self).bind fun a _ =>
      (ih fun c hc => h c (List.mem_cons_of_mem _ hc)).bind fun as _ => ?_
    trivial

end Fresh

namespace Build

open Overload (Candidate Match Scale)

variable {s : Scope} {breaks : Prop}

section Literals

variable (o : Options)

theorem fresh_realValue (image : Text) (negated : Bool) :
    Fresh breaks (realValue o image negated) fun _ => True := by
  unfold realValue
  repeat' split
  all_goals first | exact True.intro | exact .refusedAt rfl ..

theorem fresh_number (kind : Lexical.Kind) (image : Text) (negated : Bool) :
    Fresh breaks (number o kind image negated) fun _ => True := by
  unfold number
  dsimp only
  split
  · exact (fresh_realValue o image negated).bind fun _ _ => trivial
  · split
    · trivial
    · exact .inl ⟨_, rfl, rfl, rfl⟩

theorem fresh_literal {t : Lexical.Token} (h : isLiteral t.kind = true) :
    Fresh breaks (literal o t) fun _ => True := by
  unfold literal
  dsimp only
  split
  case h_1 | h_2 | h_3 => exact fresh_number ..
  case h_4 | h_5 | h_6 => trivial
  case h_7 | h_8 | h_9 | h_10 =>
    split
    · trivial
    · exact .refusedAt rfl ..
  case h_11 => cases hk : t.kind <;> simp_all [isLiteral]

end Literals

section Operators

theorem fresh_implicit (e : Element) (t : Ty) : Fresh breaks (s.implicit e t) fun _ => True := by
  unfold Scope.implicit
  split
  · trivial
  · split
    · trivial
    · exact .mismatch _

theorem fresh_both (l r : Element) (t : Ty) : Fresh breaks (both s l r t) fun _ => True :=
  (fresh_implicit l t).bind fun _ _ => (fresh_implicit r t).bind fun _ _ => trivial

theorem settled_fault {fault : Overload.Fault} (h : fault = .broken → breaks) (name : String)
    (args : List Ty) :
    (fault.failure name args).Settled (· = none) breaks := by
  cases fault with
  | broken => exact .inr ⟨⟨_, rfl⟩, h rfl⟩
  | _ => exact .inl ⟨_, rfl, rfl, rfl⟩

theorem orderly_fault {fault : Overload.Fault} (h : fault ≠ .broken) (name : String)
    (args : List Ty) :
    ∃ e, fault.failure name args = .compile e := by
  obtain ⟨e, he, -⟩ | ⟨-, hfalse⟩ := settled_fault (show fault = .broken → False from h) name args
  · exact ⟨e, he⟩
  · exact hfalse.elim

/-- Overloads of operators are taken as they are, so that no choice among them breaks down. -/
theorem fresh_overloadThrough? (op : Operator) {cands : List (Candidate (Function × Nat))}
    (hplain : ∀ c ∈ cands, c.variadic = false ∧ c.extension = false) (args : List Ty) (t : Ty) :
    Fresh breaks (overloadThrough? s op cands args t) fun _ => True := by
  unfold overloadThrough?
  generalize hdeclared : (if declaresOverloads t then cands.filter fun c =>
    c.params.contains t else []) = declared
  have hmem : ∀ c ∈ declared, c.variadic = false ∧ c.extension = false := by
    intro c hc
    rw [← hdeclared] at hc
    split at hc
    · exact hplain c (List.mem_filter.1 hc).1
    · cases hc
  have hregular : ∀ c ∈ declared, c.Regular := fun c hc =>
    ⟨fun h => by simp [(hmem c hc).1] at h, fun h => by simp [(hmem c hc).2] at h⟩
  dsimp only
  split
  · trivial
  · trivial
  · rename_i fault hfault
    refine settled_fault ?_ op.symbol args
    rintro rfl
    obtain ⟨c, hc, hhollow, -⟩ := (Overload.resolve_eq_broken hregular).1 hfault
    have hext := hhollow.1
    rw [(hmem c hc).2] at hext
    cases hext

theorem fresh_overload? (op : Operator) (ops : Operators) (args : List Ty) :
    Fresh breaks (overload? s op ops args) fun _ => True := by
  unfold overload?
  refine (Fresh.mapM fun t _ => fresh_overloadThrough? op (fun c hc => ?_) args t).bind
    fun found _ => ?_
  · obtain ⟨entry, -, rfl⟩ := List.mem_map.1 hc
    exact ⟨rfl, rfl⟩
  · repeat' split
    all_goals first | exact True.intro | exact .refused rfl ..

theorem fresh_anyOverload? (op : Operator) (args : List Ty) :
    Fresh breaks (anyOverload? s op args) fun _ => True := by
  refine (fresh_overload? op s.operators args).bind fun found _ => ?_
  cases found with
  | some f => trivial
  | none => exact fresh_overload? op Builtin.operators args

theorem fresh_overloadedBinary? (op : Operator) (l r : Element) :
    Fresh breaks (overloadedBinary? s op l r) fun _ => True := by
  refine (fresh_anyOverload? op [l.type, r.type]).bind fun found _ => ?_
  split
  · trivial
  · split
    · exact (fresh_implicit l _).bind fun _ _ => (fresh_implicit r _).bind fun _ _ => trivial
    · trivial

theorem fresh_overloadedUnary? (op : Operator) (e : Element) :
    Fresh breaks (overloadedUnary? s op e) fun _ => True := by
  refine (fresh_anyOverload? op [e.type]).bind fun found _ => ?_
  split
  · trivial
  · split
    · exact (fresh_implicit e _).bind fun _ _ => trivial
    · trivial

theorem fresh_arithmetic (op : Operator) (l r : Element) :
    Fresh breaks (arithmetic s op l r) fun _ => True := by
  unfold arithmetic
  split
  · trivial
  · refine (fresh_overloadedBinary? op l r).bind fun found _ => ?_
    dsimp only
    split
    · trivial
    · split
      · split
        · exact (fresh_both l r .double).bind fun _ _ => trivial
        · exact .mismatch _
      · split
        · exact .mismatch _
        · exact (fresh_both l r _).bind fun _ _ => trivial

theorem fresh_compare (op : Operator) (l r : Element) :
    Fresh breaks (compare s op l r) fun _ => True := by
  unfold compare
  split
  · split
    · trivial
    · exact .mismatch _
  · refine (fresh_overloadedBinary? op l r).bind fun found _ => ?_
    dsimp only
    split
    · trivial
    · split
      · exact (fresh_both l r _).bind fun _ _ => trivial
      · repeat' split
        all_goals first | exact True.intro | exact .mismatch _

theorem fresh_shift (left : Bool) (l r : Element) :
    Fresh breaks (shift s left l r) fun _ => True := by
  unfold shift
  split
  · exact .mismatch _
  · refine (fresh_implicit l _).bind fun _ _ => ?_
    split
    · trivial
    · exact .mismatch _

theorem fresh_logical (op : Operator) (l r : Element) :
    Fresh breaks (logical s op l r) fun _ => True := by
  unfold logical
  split
  · split <;> trivial
  · refine (fresh_overloadedBinary? op l r).bind fun found _ => ?_
    dsimp only
    split
    · trivial
    · split
      · exact .mismatch _
      · exact (fresh_both l r _).bind fun _ _ => trivial

theorem fresh_negation (e : Element) : Fresh breaks (negation s e) fun _ => True := by
  unfold negation
  split
  · trivial
  · split
    · trivial
    · refine (fresh_overloadedUnary? .not e).bind fun found _ => ?_
      split
      · trivial
      · exact .mismatch _

theorem fresh_minus (e : Element) : Fresh breaks (minus s e) fun _ => True := by
  unfold minus
  split
  · exact fresh_number ..
  · refine (fresh_overloadedUnary? .negate e).bind fun found _ => ?_
    split
    · trivial
    · split
      · exact .mismatch _
      · exact (fresh_implicit e _).bind fun _ _ => trivial

theorem fresh_choice (c t f : Element) : Fresh breaks (choice s c t f) fun _ => True := by
  unfold choice
  split
  · exact .mismatch _
  · dsimp only
    split
    · exact .mismatch _
    · exact (fresh_both t f _).bind fun _ _ => trivial

theorem fresh_cast (e : Element) (t : Ty) : Fresh breaks (cast s e t) fun _ => True := by
  unfold cast
  dsimp only
  split
  · trivial
  · exact .refused rfl ..

theorem fresh_amongList (operand : Element) (items : List Element) :
    Fresh breaks (amongList s operand items) fun _ => True :=
  (Fresh.mapM fun item _ => fresh_compare .equal (.duplicate operand.type) item).bind fun _ _ =>
    trivial

theorem fresh_amongCollection (operand collection : Element) :
    Fresh breaks (amongCollection s operand collection) fun _ => True := by
  unfold amongCollection
  split
  · exact .mismatch _
  · exact (fresh_implicit operand _).bind fun _ _ => trivial

theorem fresh_indexOne (collection position : Element) :
    Fresh breaks (indexOne s collection position) fun _ => True := by
  unfold indexOne
  split
  · exact .mismatch _
  · exact (fresh_implicit position _).bind fun _ _ => trivial
  · split
    · trivial
    · exact .mismatch _

theorem fresh_positions (positions : List Element) (x : Element) :
    Fresh breaks (positions.foldlM (indexOne s) x) fun _ => True := by
  induction positions generalizing x with
  | nil => trivial
  | cons i positions ih => exact (fresh_indexOne x i).bind fun y _ => ih y

end Operators

section Calls

variable {receiver : Option Element} {name : String} {args : List Element}
  {cands : List (Candidate Member)}
  {members : List Member} {access : Access} {c : Candidate Member}

/-- A candidate that a call can choose: one that can be declared, with something to be called on if
it needs it. -/
structure Choosable (receiver : Option Element) (c : Candidate Member) : Prop where
  regular : c.Regular
  whole : ¬c.Hollow
  signature : ∃ signature, c.payload.signature? = some signature ∧ signature.params = c.params
  called : (∀ n f, c.payload ≠ .function n f) → receiver.isSome
  extended : c.extension = true → receiver.isSome

/-- Every argument has a type to be converted to. -/
theorem fresh_convertArguments {m : Match Member Float}
    (h : Overload.resolve Scale.double s.score cands (args.map Element.type) = .ok m) :
    Fresh breaks (convertArguments s m.paramType? args) fun _ => True := by
  refine Fresh.mapM fun ⟨a, i⟩ hmem => ?_
  have ha : (args.map Element.type)[i]? = some a.type := by
    rw [List.getElem?_map, List.mem_zipIdx_iff_getElem?.1 hmem, Option.map_some]
  obtain ⟨t, ht, -⟩ := Overload.resolve_converts h ha
  dsimp only
  rw [ht]
  exact fresh_implicit a t

/-- A call among candidates breaks down only if one of them cannot be chosen. -/
theorem fresh_callBest (hc : ¬breaks → ∀ c ∈ cands, Choosable receiver c) :
    Fresh breaks (callBest s receiver name args cands) fun _ => True := by
  unfold callBest
  dsimp only
  split
  · rename_i fault hfault
    have hbroken : fault = .broken → breaks := by
      rintro rfl
      by_contra hnot
      obtain ⟨c, hmem, hhollow, -⟩ := (Overload.resolve_eq_broken fun c h =>
        (hc hnot c h).regular).1 hfault
      exact (hc hnot c hmem).whole hhollow
    obtain ⟨e, he, hreason, hposition⟩ | ⟨⟨words, hwords⟩, hbreaks⟩ :=
      settled_fault hbroken name (args.map Element.type)
    · rw [he]
      exact .inl ⟨_, rfl, hreason, hposition⟩
    · rw [hwords]
      exact .inr ⟨⟨_, rfl⟩, hbreaks⟩
  · rename_i best hbest
    have hcall := fun hnot => hc hnot _ (Overload.resolve_mem hbest)
    split
    · rename_i signature t hsignature _ _
      refine (fresh_convertArguments hbest).bind fun converted _ => ?_
      -- A function, perhaps called as an extension; a method of the receiver; a method without one.
      split
      · split
        · rename_i hext
          split
          · exact (fresh_implicit _ _).bind fun _ _ => trivial
          · rename_i hnone
            refine .inr ⟨⟨_, rfl⟩, by_contra fun hnot => ?_⟩
            obtain ⟨signature', hsignature', hparams⟩ := (hcall hnot).signature
            obtain rfl := Option.some.inj (hsignature.symm.trans hsignature')
            obtain ⟨r, hr⟩ := Option.isSome_iff_exists.1 ((hcall hnot).extended hext)
            obtain ⟨p, params, hcons⟩ := List.exists_cons_of_ne_nil
              (hparams ▸ (hcall hnot).regular.extension hext)
            exact hnone r p params hr hcons
        · trivial
      · trivial
      · rename_i hmethod
        refine .inr ⟨⟨_, rfl⟩, by_contra fun hnot => ?_⟩
        have hsome := (hcall hnot).called fun n f h => hmethod n f h
        cases hsome
    · exact .refusedAt rfl ..

/-- A candidate has the parameters of its member. -/
theorem signature_of_mem_candidates {extension : Bool}
    (h : c ∈ candidates members access extension) :
    ∃ signature, c.payload.signature? = some signature ∧ signature.params = c.params ∧
      signature.variadic = c.variadic := by
  obtain ⟨m, -, hc⟩ := List.mem_filterMap.1 h
  obtain ⟨signature, hsignature, rfl⟩ := Option.map_eq_some_iff.1 hc
  exact ⟨signature, hsignature, rfl, rfl⟩

/-- Members that can be declared are called as they are. -/
theorem choosable_of_mem_candidates (hregular : ∀ m ∈ members, m.Regular)
    (hcalled : ∀ m ∈ members, (∀ n f, m ≠ .function n f) → receiver.isSome)
    (h : c ∈ candidates members access false) : Choosable receiver c := by
  obtain ⟨hmem, hext⟩ := mem_candidates h
  obtain ⟨signature, hsignature, hparams, hvariadic⟩ := signature_of_mem_candidates h
  have hnot : ¬c.extension = true := by simp [hext]
  refine ⟨⟨fun hv => ?_, fun he => absurd he hnot⟩, fun hhollow =>
    hnot hhollow.1, ⟨_, hsignature, hparams⟩,
    hcalled _ hmem, fun he => absurd he hnot⟩
  obtain ⟨t, ht⟩ := hregular _ hmem signature hsignature (hvariadic.trans hv)
  exact ⟨t, hparams ▸ ht⟩

/-- Imported functions are called on nothing. -/
theorem choosable_of_mem_functions (regular : s.Regular)
    (himported : ∀ m ∈ members, Imported s.imports m)
    (h : c ∈ candidates (functionsOf members) access false) : Choosable receiver c := by
  refine choosable_of_mem_candidates (fun m hm => ?_) (fun m hm hnot => ?_) h
  · exact regular.functions m (himported m (eq_function_of_mem hm).1)
  · obtain ⟨n, f, hf⟩ := (eq_function_of_mem hm).2
    exact absurd hf (hnot n f)

/-- Functions of the root with a parameter are called on the value before them. -/
theorem choosable_of_mem_extensions (regular : s.Regular) {r : Element} {p : Member → Bool}
    (h : c ∈ candidates ((Imports.extensions s.imports name s.options.caseSensitive).filter p)
      access true) :
    Choosable (some r) c := by
  obtain ⟨hmem, hext⟩ := mem_candidates h
  obtain ⟨hm, hf⟩ := List.mem_filter.1 (List.mem_filter.1 hmem).1
  have hin : c.payload ∈ s.imports := (List.mem_filter.1 hm).1
  obtain ⟨signature, hsignature, hparams, hvariadic⟩ := signature_of_mem_candidates h
  generalize hp : c.payload = m at hin hf hsignature
  cases m with
  | function n f =>
    obtain rfl : f.signature = signature := Option.some.inj hsignature
    have hne : c.params ≠ [] := by
      rw [← hparams]
      simpa using hf
    refine ⟨⟨fun hv => ?_, fun _ => hne⟩, fun hhollow =>
      ?_, ⟨f.signature, by rw [hp]; rfl, hparams⟩, fun _ => rfl,
      fun _ => rfl⟩
    · obtain ⟨t, ht⟩ := regular.functions _ (.here hin) _ rfl (hvariadic.trans hv)
      exact ⟨t, hparams ▸ ht⟩
    · exact regular.whole n f hin ⟨hvariadic.trans hhollow.2.1, hparams ▸ hhollow.2.2⟩
  | _ => simp at hf

end Calls

section Names

variable (regular : ¬breaks → s.Regular)

/-- What a chain stands for, if it is a namespace: imported members. -/
def Reached (s : Scope) (subject : Subject) : Prop :=
  subject.Holds (fun _ => True) fun members => ∀ m ∈ members, Imported s.imports m

theorem Reached.of_stands {subject : Subject} (h : Stands s subject) : Reached s subject := by
  cases subject with
  | scope => exact h
  | _ => trivial

theorem fresh_firstName (name : String) : Fresh breaks (firstName s name) (Reached s) := by
  cases h : firstName s name with
  | ok subject => exact .of_stands (firstName_stands h)
  | error f =>
    unfold firstName at h
    dsimp only at h
    split at h
    · cases h
    · split at h
      · cases h
      · cases h
      · cases h
      · exact .inl ⟨_, (Except.error.inj h).symm, rfl, rfl⟩
      · exact .inl ⟨_, (Except.error.inj h).symm, rfl, rfl⟩

include regular

theorem fresh_firstCall (name : String) (args : List Element) :
    Fresh breaks (firstCall s name args) fun _ => True := by
  have howner : ∀ m ∈ s.ownerMembers name [.method], (ownerElement s).isSome ∧ ∃ o,
      m ∈ s.host.members o := by
    intro m hm
    cases ho : s.ownerType with
    | none =>
      simp only [Scope.ownerMembers, ho] at hm
      cases hm
    | some o =>
      simp only [Scope.ownerMembers, ho] at hm
      exact ⟨by simp [ownerElement, ho], o, (mem_findMembers (by simp) hm).1⟩
  have hattempt :
    Fresh breaks (if (candidates (s.ownerMembers name [.method]) s.options.ownerAccess false ++
      candidates (functionsOf (s.imported name)) .all false).isEmpty then undefinedName s name
      else callBest s (ownerElement s) name args
        (candidates (s.ownerMembers name [.method]) s.options.ownerAccess false ++
        candidates (functionsOf (s.imported name)) .all false)) fun _ => True := by
    split
    · exact .refusedAt rfl ..
    · refine fresh_callBest fun hnot c hc => ?_
      rcases List.mem_append.1 hc with hc | hc
      · refine choosable_of_mem_candidates (fun m hm => ?_) (fun m hm _ => (howner m hm).1) hc
        obtain ⟨-, o, ho⟩ := howner m hm
        exact (regular hnot).members ho
      · exact choosable_of_mem_functions (regular hnot) (imported_of_lookup fun m hm => .here hm) hc
  unfold firstCall
  dsimp only
  split
  · rename_i hfailed _
    split
    · trivial
    · rw [hfailed] at hattempt
      exact hattempt
  · exact hattempt

theorem fresh_first (r : Reference) : Fresh breaks (first s r) (Reached s) := by
  unfold first
  split
  · exact fresh_firstName r.name
  · exact (fresh_firstCall regular r.name _).map fun _ _ => trivial

theorem fresh_inNamespace {path : String} {members : List Member}
    (himported : ∀ m ∈ members, Imported s.imports m)
    (r : Reference) : Fresh breaks (inNamespace s path members r) (Reached s) := by
  cases hargs : r.args with
  | none =>
    cases h : inNamespace s path members r with
    | ok subject =>
      refine .of_stands (inNamespace_stands himported (fun args h => ?_) h)
      rw [hargs] at h
      cases h
    | error f =>
      simp only [inNamespace, hargs] at h
      split at h
      · cases h
      · exact .inl ⟨_, (Except.error.inj h).symm, rfl, rfl⟩
  | some args =>
    simp only [inNamespace, hargs]
    split
    · exact .refusedAt rfl ..
    · refine (fresh_callBest fun hnot c hc => ?_).map fun _ _ => trivial
      exact choosable_of_mem_functions (regular hnot) (imported_of_lookup himported) hc

theorem fresh_memberOf (e : Element) (r : Reference) :
    Fresh breaks (memberOf s e r) fun _ => True := by
  unfold memberOf
  dsimp only
  split
  · split
    · trivial
    · exact .refusedAt rfl ..
    · exact .refusedAt rfl ..
  · split
    · exact .refusedAt rfl ..
    · refine fresh_callBest fun hnot c hc => ?_
      rcases List.mem_append.1 hc with hc | hc
      · exact choosable_of_mem_candidates (fun m hm =>
          (regular hnot).members (mem_findMembers (by simp) hm).1)
          (fun _ _ _ => rfl) hc
      · exact choosable_of_mem_extensions (regular hnot) hc

theorem fresh_next {subject : Subject} (hs : Reached s subject) (r : Reference) :
    Fresh breaks (next s subject r) (Reached s) := by
  cases subject with
  | value e => exact (fresh_memberOf regular e r).map fun _ _ => trivial
  | scope path members => exact fresh_inNamespace regular hs r
  | type path => exact .refusedAt rfl ..

omit regular

theorem fresh_index {subject : Subject} (hs : Reached s subject) (positions : List Element) :
    Fresh breaks (index s subject positions) (Reached s) := by
  unfold index
  split
  · exact (fresh_positions positions _).map fun _ _ => trivial
  · split
    · exact hs
    · exact .mismatch _

theorem fresh_settle (subject : Subject) : Fresh breaks subject.element fun _ => True := by
  cases subject with
  | value e => trivial
  | _ => exact .refusedAt rfl ..

end Names

end Build

end Formulary
