import Formulary.Proofs.Build.Orderly
import Formulary.Proofs.Typing.Applicability

/-!
# A call that is resolved is built

The types of the arguments are rated when a candidate is chosen, and the arguments are converted
when the call is built. Since scores and conversions agree, and the type that an argument is
converted to is the one it was rated by, no conversion fails in between. Nor does that of the value
which an extension is called on: only extensions that take it are among the candidates. So a call
whose candidate is chosen is built, unless the candidate gives no value at all.
-/

namespace Formulary

namespace Build

open Overload (Candidate Match Scale resolve)

variable {s : Scope} {receiver : Option Element} {name : String} {args : List Element}
  {cands : List (Candidate Member)} {m : Match Member Float} {c : Candidate Member}
  {members : List Member} {access : Access}

theorem exists_mapM_ok {ε α β : Type} {f : α → Except ε β} {l : List α}
    (h : ∀ a ∈ l, ∃ b, f a = .ok b) :
    ∃ bs, l.mapM f = .ok bs := by
  induction l with
  | nil => exact ⟨[], rfl⟩
  | cons a l ih =>
    obtain ⟨b, hb⟩ := h a List.mem_cons_self
    obtain ⟨bs, hbs⟩ := ih fun x hx => h x (List.mem_cons_of_mem a hx)
    exact ⟨b :: bs, by rw [List.mapM_cons, hb, hbs]; rfl⟩

theorem implicit_of_converts {e : Element} {t : Ty} (h : s.converts e.type t = true) : ∃ x,
    s.implicit e t = .ok x := by
  unfold Scope.implicit
  split
  · exact ⟨e, rfl⟩
  · obtain ⟨how, hhow⟩ := Option.isSome_iff_exists.1 h
    rw [hhow]
    exact ⟨_, rfl⟩

/-- Every argument is converted to the type that it was rated by. -/
theorem convertArguments_resolved (h : resolve Scale.double s.score cands
    (args.map Element.type) = .ok m) :
    ∃ converted, convertArguments s m.paramType? args = .ok converted := by
  refine exists_mapM_ok fun ⟨a, i⟩ hmem => ?_
  have ha : (args.map Element.type)[i]? = some a.type := by
    rw [List.getElem?_map, List.mem_zipIdx_iff_getElem?.1 hmem, Option.map_some]
  obtain ⟨t, ht, hscore⟩ := Overload.resolve_converts h ha
  dsimp only
  rw [ht]
  exact implicit_of_converts ((Typing.score_nonneg_iff _ _ _ _).1 hscore)

/-- A candidate that suits what it is called on: a method needs a value before it, and an extension
one that converts to its first parameter. -/
structure Suited (s : Scope) (receiver : Option Element) (c : Candidate Member) : Prop where
  signature : ∃ signature, c.payload.signature? = some signature ∧ signature.params = c.params
  called : (∀ n f, c.payload ≠ .function n f) → receiver.isSome
  extended : c.extension = true → ∃ r p rest, receiver = some r ∧ c.params = p :: rest ∧
    s.converts r.type p = true

/-- What becomes of a call once its candidate is chosen: it is built, or refused because the
candidate gives no value. -/
def Delivered {α : Type} (m : Match Member Float) (name : String) (x : Except Failure α) : Prop :=
  if m.candidate.payload.hasResult then ∃ a, x = .ok a
  else x = refusedAt .noReturnValue s!"{m.candidate.signature} does not return a value" name

theorem Delivered.map {α β : Type} {x : Except Failure α} (h : Delivered m name x) (f : α → β) :
    Delivered m name (x.map f) := by
  unfold Delivered at h ⊢
  split
  · rename_i hresult
    rw [if_pos hresult] at h
    obtain ⟨a, rfl⟩ := h
    exact ⟨f a, rfl⟩
  · rename_i hresult
    rw [if_neg hresult] at h
    rw [h]
    rfl

theorem Member.valueType?_of_signature? {x : Member} {signature : Signature}
    (h : x.signature? = some signature) :
    x.valueType? = signature.value? ∧ x.hasResult = signature.value?.isSome := by
  refine ⟨?_, by rw [Member.hasResult, h]⟩
  cases x with
  | property | method | function =>
    cases h
    rfl
  | _ => cases h

/-- The call of a candidate that is chosen among suited ones. -/
theorem callBest_delivered (hc : ∀ c ∈ cands, Suited s receiver c)
    (h : resolve Scale.double s.score cands (args.map Element.type) = .ok m) :
    Delivered m name (callBest s receiver name args cands) := by
  have hsuited := hc _ (Overload.resolve_mem h)
  obtain ⟨signature, hsignature, hparams⟩ := hsuited.signature
  obtain ⟨htype, hresult⟩ := Member.valueType?_of_signature? hsignature
  obtain ⟨converted, hconverted⟩ := convertArguments_resolved h
  unfold Delivered callBest
  simp only [h, hsignature, htype, hresult]
  cases hvalue : signature.value? with
  | none => rfl
  | some t =>
    simp only [Option.isSome_some, if_true, hconverted, bind, Except.bind]
    split
    · split
      · rename_i hext
        obtain ⟨r, p, rest, rfl, hcons, hconverts⟩ := hsuited.extended hext
        obtain ⟨x, hx⟩ := implicit_of_converts hconverts
        simp only [hparams, hcons, hx]
        exact ⟨_, rfl⟩
      · exact ⟨_, rfl⟩
    · exact ⟨_, rfl⟩
    · rename_i hmethod
      have hsome := hsuited.called fun n f hf => hmethod n f hf
      cases hsome

/-- A name behind what a chain stands for so far, or first in the chain. -/
def link (s : Scope) (r : Reference) : Option Subject → Except Failure Subject
  | none => first s r
  | some subject => next s subject r

/-- The value that stands before a call: before a first name, the owner. -/
def receiverOf (s : Scope) : Option Subject → Option Element
  | none => ownerElement s
  | some (.value e) => some e
  | some _ => none

/-- The candidates for the call of a name: methods of the owner and imported functions for a first
name, functions of a namespace within it, and behind a value its methods and the extensions that
take it. -/
def offers (s : Scope) (name : String) : Option Subject → List (Candidate Member)
  | none =>
    candidates (s.ownerMembers name [.method]) s.options.ownerAccess false ++
      candidates (functionsOf (s.imported name)) .all false
  | some (.scope _ members) =>
    candidates (functionsOf (Imports.lookup members name s.options.caseSensitive)) .all false
  | some (.type _) => []
  | some (.value e) =>
    let extensions := (Imports.extensions s.imports name s.options.caseSensitive).filter fun m =>
      match m.signature?.bind (·.params.head?) with
      | some p => s.converts e.type p
      | none => false
    candidates (s.host.findMembers e.type name s.options.caseSensitive [.method])
      (accessTo s e.type) false ++
      candidates extensions .all true

/-- What is called as it stands suits every value before it, if it needs none or there is one. -/
theorem suited_of_mem_candidates (hcalled : ∀ x ∈ members, (∀ n f, x ≠ .function n f) →
    receiver.isSome)
    (h : c ∈ candidates members access false) : Suited s receiver c := by
  obtain ⟨hmem, hext⟩ := mem_candidates h
  obtain ⟨signature, hsignature, hparams, -⟩ := signature_of_mem_candidates h
  exact ⟨⟨signature, hsignature, hparams⟩, hcalled _ hmem, fun he => by rw [hext] at he; cases he⟩

theorem suited_of_mem_functions (h : c ∈ candidates (functionsOf members) access false) :
    Suited s receiver c := by
  refine suited_of_mem_candidates (fun x hx hnot => ?_) h
  obtain ⟨n, f, hf⟩ := (eq_function_of_mem hx).2
  exact absurd hf (hnot n f)

/-- The extensions that are offered behind a value take it. -/
theorem suited_of_mem_extensions {e : Element} (h : c ∈ candidates members access true)
    (hmembers : ∀ x ∈ members, (match x.signature?.bind (·.params.head?) with
      | some p => s.converts e.type p
      | none => false) = true) : Suited s (some e) c := by
  obtain ⟨hmem, -⟩ := mem_candidates h
  obtain ⟨signature, hsignature, hparams, -⟩ := signature_of_mem_candidates h
  refine ⟨⟨signature, hsignature, hparams⟩, fun _ => rfl, fun _ => ?_⟩
  have htakes := hmembers _ hmem
  rw [hsignature, Option.bind_some, hparams] at htakes
  split at htakes
  · rename_i p hp
    obtain ⟨rest, hcons⟩ := List.head?_eq_some_iff.1 hp
    exact ⟨e, p, rest, rfl, hcons, htakes⟩
  · cases htakes

theorem offers_suited (before : Option Subject) (h : c ∈ offers s name before) :
    Suited s (receiverOf s before) c := by
  cases before with
  | none =>
    rcases List.mem_append.1 h with h | h
    · refine suited_of_mem_candidates (fun x hx _ => ?_) h
      cases howner : s.ownerType with
      | none =>
        simp only [Scope.ownerMembers, howner] at hx
        cases hx
      | some o => simp [receiverOf, ownerElement, howner]
    · exact suited_of_mem_functions h
  | some subject =>
    cases subject with
    | scope path members => exact suited_of_mem_functions h
    | type path => cases h
    | value e =>
      rcases List.mem_append.1 h with h | h
      · exact suited_of_mem_candidates (fun _ _ _ => rfl) h
      · exact suited_of_mem_extensions h fun x hx => (List.mem_filter.1 hx).2

theorem callBest_offered (before : Option Subject)
    (h : resolve Scale.double s.score (offers s name before) (args.map Element.type) = .ok m) :
    offers s name before ≠ [] ∧ Delivered m name
      (callBest s (receiverOf s before) name args (offers s name before)) :=
  ⟨List.ne_nil_of_mem (Overload.resolve_mem h),
    callBest_delivered (fun _ => offers_suited before) h⟩

/-- What a store supplies on demand is not asked for once a candidate is chosen. -/
theorem firstCall_delivered
    (h : resolve Scale.double s.score (offers s name none) (args.map Element.type) = .ok m) :
    Delivered m name (firstCall s name args) := by
  obtain ⟨hsome, hcall⟩ := callBest_offered none h
  rw [← List.isEmpty_eq_false_iff] at hsome
  simp only [offers, receiverOf] at hsome hcall
  unfold firstCall
  simp only [hsome, Bool.false_eq_true, if_false]
  unfold Delivered at hcall ⊢
  split
  · rename_i hresult
    rw [if_pos hresult] at hcall
    obtain ⟨e, he⟩ := hcall
    rw [he]
    exact ⟨e, rfl⟩
  · rename_i hresult
    rw [if_neg hresult] at hcall
    rw [hcall]
    cases s.store.suppliedFunction? name (args.map Element.type) <;> rfl

theorem inNamespace_delivered {path : String}
    (h : resolve Scale.double s.score (offers s name (some (.scope path members)))
      (args.map Element.type) = .ok m) :
    Delivered m name (inNamespace s path members ⟨name, some args⟩) := by
  obtain ⟨hsome, hcall⟩ := callBest_offered _ h
  simp only [offers, receiverOf] at hsome hcall
  simp only [inNamespace]
  cases hfunctions : functionsOf (Imports.lookup members name s.options.caseSensitive) with
  | nil =>
    rw [hfunctions] at hsome
    exact absurd rfl hsome
  | cons x rest =>
    rw [hfunctions] at hcall
    exact hcall.map _

theorem memberOf_delivered {e : Element}
    (h : resolve Scale.double s.score (offers s name (some (.value e)))
      (args.map Element.type) = .ok m) :
    Delivered m name (memberOf s e ⟨name, some args⟩) := by
  obtain ⟨hsome, hcall⟩ := callBest_offered _ h
  simp only [offers, receiverOf] at hsome hcall
  unfold memberOf
  dsimp only
  split
  · rename_i hnil
    exact absurd hnil hsome
  · exact hcall

/-- A call whose candidate is chosen is built, wherever it stands, unless the candidate gives no
value. -/
theorem link_delivered (before : Option Subject)
    (h : resolve Scale.double s.score (offers s name before) (args.map Element.type) = .ok m) :
    Delivered m name (link s ⟨name, some args⟩ before) := by
  cases before with
  | none => exact (firstCall_delivered h).map _
  | some subject =>
    cases subject with
    | scope path members => exact inNamespace_delivered h
    | type path => cases Overload.resolve_mem h
    | value e => exact (memberOf_delivered h).map _

/-- Scores and conversions agree, so resolving a call leaves no conversion that can fail: one type
converts to another exactly where its score is not negative; a match gives every argument a type
that the argument converts to; and a call that is resolved is built, if what is called gives a
value. -/
theorem resolution_converts (s : Scope) :
    (∀ source target, 0 ≤ Typing.score s.host s.operators source target ↔
      ∃ how, Typing.implicit? s.host s.operators source target = some how) ∧
    (∀ (α σ : Type) (scale : Scale σ) (cs : List (Candidate α)) (types : List Ty) (m : Match α σ),
      resolve scale s.score cs types = .ok m → ∀ i a, types[i]? = some a →
        ∃ t how, m.paramType? i = some t ∧ Typing.implicit? s.host s.operators a t = some how) ∧
    ∀ (before : Option Subject) (name : String) (args : List Element) (m : Match Member Float),
      resolve Scale.double s.score (offers s name before) (args.map Element.type) = .ok m →
        Delivered m name (link s ⟨name, some args⟩ before) := by
  have hagree : ∀ source target, 0 ≤ Typing.score s.host s.operators source target ↔
      ∃ how, Typing.implicit? s.host s.operators source target = some how := fun source target =>
    (Typing.score_nonneg_iff _ _ _ _).trans Option.isSome_iff_exists
  refine ⟨hagree, fun α σ scale cs types m h i a ha => ?_, fun before name args m h =>
    link_delivered before h⟩
  obtain ⟨t, ht, hscore⟩ := Overload.resolve_converts h ha
  obtain ⟨how, hhow⟩ := (hagree a t).1 hscore
  exact ⟨t, how, ht, hhow⟩

section Join

/-- A function of the root that takes a long integer and any number of doubles. -/
def joinAll : Function :=
  ⟨⟨[.int .long, .slice .double], true, [.string]⟩, fun _ => pure (.string [])⟩

def joinExtension : Candidate Member where
  name := "Join"
  params := [.int .long, .slice .double]
  variadic := true
  extension := true
  payload := .function "Join" joinAll

def joining : Scope where
  host := .bare
  options := {}
  operators := {}
  imports := [.function "Join" joinAll]
  store := {}
  ownerType := none

/-- A number of type `int`. -/
def numberOf (n : Int) : Element := .constant (.int .int) (.int .int n) none

theorem offers_joining : offers joining "Join" (some (.value (numberOf 5))) = [joinExtension] := by
  have hmethods : joining.host.members (.int .int) = [] := by
    show (([] : List Member) ++ []).mergeSort _ = []
    simp
  have hfound : Imports.lookup joining.imports "Join" false = joining.imports := by
    simp [Imports.lookup, joining, sameName, Member.name]
  show candidates ((joining.host.members (.int .int)).filter _) _ _ ++
    candidates (((Imports.lookup joining.imports "Join" false).filter _).filter _) _ _ = _
  rw [hmethods, hfound]
  rfl

/-- A number joined to a character and to another number: the first becomes a long integer, the
others doubles. -/
theorem resolution_converts_join :
    ∃ subject, link joining ⟨"Join", some [.constant .char (.char 97) none, numberOf 2]⟩
      (some (.value (numberOf 5))) =
      .ok subject := by
  have hfit : Overload.fit Scale.double joining.score joinExtension [.char, .int .int] =
    .yes (Scale.double.penalty (Scale.double.mean 13 2)) true := rfl
  have hbuilt := (resolution_converts joining).2.2 (some (.value (numberOf 5))) "Join"
    [.constant .char (.char 97) none, numberOf 2] _
    (by rw [offers_joining]; exact Overload.resolve_singleton hfit rfl)
  rwa [Delivered, if_pos (by decide)] at hbuilt

end Join

end Build

end Formulary
