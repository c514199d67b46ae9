import Formulary.Proofs.Build.Operated
import Formulary.Proofs.Host.Calls

/-!
# Results of operations

Conversions, operators, searches and indexes give values of the types that the typing rules say, and
operators find operands of the types they compute with.
-/

namespace Formulary

open Machine

section Conversion

variable {host : Host} {ops : Operators} {source target : Ty} {v : Value}

/-- What the conversions between two types come to. -/
def Conversion.Leads (ops : Operators) (source target : Ty) : Conversion → Prop
  | .nullTo t => t = target
  | .numeric t | .checked t => t = target ∧ target.isNumber = true
  | .enum t => t = target ∧ (target.isEnum = true ∨ target.isNumber = true)
  | .assert t => t = target
  | .user f => (f ∈ ops.implicit ∨ f ∈ ops.explicit) ∧ f.signature.params = [source] ∧
    f.signature.results.head? = some target

theorem Typing.isNumber_of_widens (h : widens source target = true) (hne : source ≠ target) :
    target.isNumber = true := by
  simp only [widens, Bool.or_eq_true, beq_iff_eq, hne, false_or] at h
  rcases h with h | h
  · -- Types that differ have the same normal form only if they are integers.
    cases target with
    | int k => rfl
    | _ =>
      cases source with
      | int k => cases h
      | _ => exact absurd h hne
  · cases target with
    | int | single | double | decimal => rfl
    | _ => cases h

theorem Operators.converts_spec {f : Function} (h : Operators.converts source target f = true) :
    f.signature.params = [source] ∧ f.signature.results.head? = some target := by
  simpa [Operators.converts] using h

theorem leads_of_implicit? {c : Conversion}
    (h : Typing.implicit? host ops source target = some (some c)) :
    c.Leads ops source target := by
  unfold Typing.implicit? at h
  split at h
  · cases h
  · rename_i hne
    split at h
    · split at h
      · cases h
        rfl
      · cases h
    · split at h
      · rename_i f hf
        cases h
        exact ⟨.inl (List.mem_of_find?_eq_some hf), Operators.converts_spec (List.find?_some hf)⟩
      · split at h
        · rename_i hwidens
          cases h
          exact ⟨rfl, Typing.isNumber_of_widens hwidens (by simpa using hne)⟩
        · split at h
          · cases h
          · cases h

theorem leads_of_explicit? {c : Conversion}
    (h : Typing.explicit? host ops source target = some (some c)) :
    c.Leads ops source target := by
  unfold Typing.explicit? at h
  split at h
  · rename_i how hhow
    cases h
    exact leads_of_implicit? hhow
  · split at h
    · rename_i f hf
      cases h
      rcases Option.or_eq_some_iff.1 hf with hf | ⟨-, hf⟩
      · exact ⟨.inr (List.mem_of_find?_eq_some hf), Operators.converts_spec (List.find?_some hf)⟩
      · exact ⟨.inl (List.mem_of_find?_eq_some hf), Operators.converts_spec (List.find?_some hf)⟩
    · split at h
      · rename_i hnumbers
        cases h
        exact ⟨rfl, (Bool.and_eq_true_iff.1 hnumbers).2⟩
      · split at h
        · rename_i henum
          cases h
          refine ⟨rfl, ?_⟩
          simp only [Bool.or_eq_true, Bool.and_eq_true] at henum
          rcases henum with ⟨-, hnumber | htarget⟩ | ⟨htarget, -⟩
          · exact .inr hnumber
          · exact .inl htarget
          · exact .inl htarget
        · split at h
          · cases h
            rfl
          · cases h

/-- Whatever conversion there is between two types leads from one to the other. -/
theorem Conversion.Between.leads {c : Conversion}
    (h : Conversion.Between host ops source target (some c)) :
    c.Leads ops source target := by
  rcases h with h | h | h
  · exact leads_of_implicit? h
  · exact leads_of_explicit? h
  · unfold Typing.checkedExplicit? at h
    split at h
    · rename_i t ht
      obtain ⟨rfl, hnumber⟩ := leads_of_explicit? ht
      split at h
      · cases h
        exact ⟨rfl, hnumber⟩
      · cases h
        exact ⟨rfl, hnumber⟩
    · exact leads_of_explicit? h

/-- Where no work is needed the types are the same, or one implements the other. -/
theorem fits_of_implicit? (h : Typing.implicit? host ops source target = some none)
    (hv : host.Fits source v) :
    host.Fits target v := by
  unfold Typing.implicit? at h
  split at h
  · rename_i heq
    rwa [← (by simpa using heq : source = target)]
  · split at h
    · split at h <;> cases h
    · split at h
      · cases h
      · split at h
        · cases h
        · split at h
          · rename_i himplements
            exact hv.of_implements himplements
          · cases h

theorem fits_of_explicit? (h : Typing.explicit? host ops source target = some none)
    (hv : host.Fits source v) :
    host.Fits target v := by
  unfold Typing.explicit? at h
  split at h
  · rename_i how hhow
    cases h
    exact fits_of_implicit? hhow hv
  · split at h
    · cases h
    · split at h
      · cases h
      · split at h
        · cases h
        · split at h <;> cases h

/-- A conversion without work leaves a value of the type converted to. -/
theorem Conversion.Between.fits (h : Conversion.Between host ops source target none)
    (hv : host.Fits source v) :
    host.Fits target v := by
  rcases h with h | h | h
  · exact fits_of_implicit? h hv
  · exact fits_of_explicit? h hv
  · unfold Typing.checkedExplicit? at h
    split at h
    · split at h <;> cases h
    · exact fits_of_explicit? h hv

theorem toNumeric_has (h : target.isNumber = true) : host.Has target (v.toNumeric target) := by
  cases target with
  | int k =>
    unfold Value.toNumeric
    dsimp only
    split
    · exact Host.has_of_type rfl rfl trivial
    · exact Host.has_of_type rfl rfl trivial
  | char | single | double => exact Host.has_of_type rfl rfl trivial
  | decimal =>
    show host.Has .decimal v.toDecimal
    unfold Value.toDecimal
    split <;> exact Host.has_of_type rfl rfl trivial
  | _ => cases h

theorem convertNumeric_gives (h : target.isNumber = true) :
    host.Gives target (convertNumeric target v) := by
  unfold convertNumeric
  split
  · split
    · exact .pure (toNumeric_has h)
    · exact .failed
  · split
    · exact .pure (toNumeric_has h)
    · exact .failed
  · exact .pure (toNumeric_has h)

/-- A conversion gives a value of the type converted to. -/
theorem Conversion.gives (honest : host.Honest) (hops : ops.Honest host) {c : Conversion}
    (h : c.Leads ops source target) (hv : host.Has source v) :
    host.Gives target (c.apply host v) := by
  obtain ⟨rank, ranked⟩ := honest.ranked
  cases c with
  | nullTo t =>
    obtain rfl := h
    exact .pure (Host.zero_has ranked t)
  | numeric t =>
    obtain ⟨rfl, hnumber⟩ := h
    exact convertNumeric_gives hnumber
  | checked t =>
    obtain ⟨rfl, hnumber⟩ := h
    unfold Conversion.apply
    simp only
    split
    · split
      · exact .failed
      · exact convertNumeric_gives hnumber
    · exact .failed
  | enum t =>
    obtain ⟨rfl, htarget⟩ := h
    unfold Conversion.apply
    simp only
    split
    · exact .failed
    · split
      · exact .pure (Host.has_of_type rfl rfl trivial)
      · rename_i hno
        refine convertNumeric_gives (htarget.resolve_left fun henum => ?_)
        cases t with
        | enum name k => exact hno name k rfl
        | _ => cases henum
  | assert t =>
    obtain rfl := h
    unfold Conversion.apply
    simp only
    split
    · split
      · exact .pure (Host.zero_has ranked t)
      · exact .failed
    · rename_i u hu
      split
      · rename_i hsuits
        exact .pure ⟨Host.fits_of_suits hv.2 hu hsuits, hv.2⟩
      · exact .failed
  | user f =>
    obtain ⟨hf, -, hresult⟩ := h
    have hhonest : f.Honest host := hf.elim (hops.implicit f) (hops.explicit f)
    exact Host.invoke_gives honest hhonest (by simpa using hv.2) hresult

end Conversion

/-- An evaluation that ends with a value or with a failure that has words: no operand was of another
type. -/
def Answers (e : Eval Value) : Prop := (∃ v, e = pure v) ∨ ∃ f, f ≠ .broken none ∧ e = failed f

/-- A function can be called with arguments: each can be stored where its parameter is declared. -/
def Host.Receives (host : Host) (f : Function) (args : List Value) : Prop :=
  List.Forall₂ (fun p a => host.accepts p (host.given p a) = true) f.signature.params args

/-- An operation finds an operand of the type it computes with. -/
def Unary.Asserts (host : Host) (a : Value) : Unary → Prop
  | .overload _ f => host.Receives f [a]
  | op => Answers (op.apply host a)

/-- An operation finds operands of the types it computes with. Comparing objects asks for no
types. -/
def Binary.Asserts (host : Host) (a b : Value) : Binary → Prop
  | .overload _ f => host.Receives f [a, b]
  | .sameObject _ => True
  | op => Answers (op.apply host a b)

def Value.isSearchable : Value → Bool
  | .map .. | .slice .. | .array .. | .missing _ => true
  | .pointer _ _ v _ => v.isSearchable
  | _ => false

section Operation

variable {host : Host} {ops : Operators} {t : Ty}

/-- Integer arithmetic fails for overflow and zero divisors only. -/
theorem intArithmetic_error {k : IntKind} {op : Operator} {checked : Bool} {a b : Int} {f : Failure}
    (h : intArithmetic k op checked a b = .error f) : f ≠ .broken none := by
  unfold intArithmetic at h
  split at h
  · cases op <;> simp only [unsignedArithmetic] at h <;> repeat' split at h
    all_goals cases h
    all_goals nofun
  · cases op <;> simp only [signedArithmetic] at h <;> repeat' split at h
    all_goals cases h
    all_goals nofun

theorem intNegation_error {k : IntKind} {checked : Bool} {a : Int} {f : Failure}
    (h : intNegation k checked a = .error f) : f ≠ .broken none := by
  unfold intNegation at h
  split at h
  · cases h
    nofun
  · cases h

/-- Arithmetic over an integer type answers with one of its values. -/
theorem settle_sound {e : Eval Value} {k : IntKind} {r : Except Failure Int} (he : e = settle k r)
    (hr : ∀ f, r = .error f → f ≠ .broken none) : Answers e ∧ host.Gives (.int k) e := by
  subst he
  cases r with
  | ok n => exact ⟨.inl ⟨_, rfl⟩, .pure (Host.has_of_type rfl rfl trivial)⟩
  | error f => exact ⟨.inr ⟨f, hr f rfl, rfl⟩, .failed⟩

/-- An evaluation with a plain value answers with it. -/
theorem pure_sound {e : Eval Value} {v : Value} (he : e = pure v) (htype : v.type? = some t)
    (ht : t.isInterface = false) (hv : v.Genuine host) : Answers e ∧ host.Gives t e := by
  subst he
  exact ⟨.inl ⟨v, rfl⟩, .pure (Host.has_of_type htype ht hv)⟩

/-- The values of the types that operations compute with. -/
def Ty.Form (v : Value) : Ty → Prop
  | .bool => ∃ b, v = .bool b
  | .int k => ∃ n, v = .int k n
  | .single => ∃ x, v = .single x
  | .double => ∃ x, v = .double x
  | .string => ∃ x, v = .string x
  | .enum name k => ∃ n, v = .enum name k n
  | _ => True

theorem Host.Has.form {v : Value} (h : host.Has t v) : t.Form v := by
  by_cases hface : t.isInterface = true
  · cases t with
    | object | face => trivial
    | _ => cases hface
  by_cases hnull : t = .null
  · rw [hnull]
    trivial
  have htype := h.1.type_eq (by simpa using hface) hnull
  cases v with
  | nil => cases htype
  | bool | int | single | double | string | enum =>
    cases htype
    exact ⟨_, rfl⟩
  | missing u =>
    cases htype
    cases t with
    | pointer | slice | map => trivial
    | _ => cases h.2
  | _ =>
    cases htype
    trivial

/-- The types with arithmetic of their own. -/
theorem Typing.isComputed_cases (h : isComputed t = true) : (∃ k, t = .int k) ∨ t = .double ∨
    t = .single := by
  cases t with
  | int k => exact .inl ⟨k, rfl⟩
  | double => exact .inr (.inl rfl)
  | single => exact .inr (.inr rfl)
  | _ => cases h

theorem Host.receives_of_has (honest : host.Honest) {f : Function} {args : List Value}
    (h : List.Forall₂ host.Fits f.signature.params args) : host.Receives f args :=
  h.imp fun _ _ hfits => Host.accepts_given honest hfits

/-- A unary operation finds an operand of its type and gives a value of its type. -/
theorem Unary.sound (honest : host.Honest) (hops : ops.Honest host) {op : Unary}
    {a : Ty} {v : Value}
    (h : op.Yields ops a t) (hv : host.Has a v) : op.Asserts host v ∧
    host.Gives t (op.apply host v) := by
  cases op with
  | not =>
    obtain ⟨rfl, rfl⟩ := h
    obtain ⟨b, rfl⟩ := hv.form
    exact pure_sound rfl rfl rfl trivial
  | complement =>
    obtain ⟨hint, rfl⟩ := h
    obtain ⟨k, rfl⟩ := Ty.eq_int_of_isIntegral hint
    obtain ⟨n, rfl⟩ := hv.form
    exact pure_sound rfl rfl rfl trivial
  | negate u checked =>
    obtain ⟨hcomputed, rfl, rfl⟩ := h
    rcases Typing.isComputed_cases hcomputed with ⟨k, rfl⟩ | rfl | rfl
    · obtain ⟨n, rfl⟩ := hv.form
      have happly : (Unary.negate (.int k) checked).apply host (.int k n) =
          settle k (intNegation k checked n) := by
        simp [Unary.apply]
      exact settle_sound happly fun f => intNegation_error
    · obtain ⟨x, rfl⟩ := hv.form
      exact pure_sound rfl rfl rfl trivial
    · obtain ⟨x, rfl⟩ := hv.form
      exact pure_sound rfl rfl rfl trivial
  | overload op f =>
    obtain ⟨hf, hparams, hresult⟩ := h
    have hhonest : f.Honest host := hf.elim (hops.unary op f) ((builtin_honest host).unary op f)
    refine ⟨Host.receives_of_has honest ?_, Host.invoke_gives honest hhonest
      (by simpa using hv.2) hresult⟩
    rw [hparams]
    exact .cons hv.1 .nil

/-- A binary operation finds operands of its types and gives a value of its type. -/
theorem Binary.sound (honest : host.Honest) (hops : ops.Honest host) {op : Binary}
    {a b : Ty} {v w : Value} (h : op.Yields ops a b t) (hv : host.Has a v) (hw : host.Has b w) :
    op.Asserts host v w ∧ host.Gives t (op.apply host v w) := by
  cases op with
  | concat =>
    obtain rfl := h
    exact pure_sound rfl rfl rfl trivial
  | arithmetic op u checked =>
    obtain ⟨hcomputed, rfl, rfl, rfl⟩ := h
    rcases Typing.isComputed_cases hcomputed with ⟨k, rfl⟩ | rfl | rfl
    · obtain ⟨m, rfl⟩ := hv.form
      obtain ⟨n, rfl⟩ := hw.form
      have happly : (Binary.arithmetic op (.int k) checked).apply host (.int k m) (.int k n) =
          settle k (intArithmetic k op checked m n) := by simp [Binary.apply]
      exact settle_sound happly fun f => intArithmetic_error
    · obtain ⟨x, rfl⟩ := hv.form
      obtain ⟨y, rfl⟩ := hw.form
      exact pure_sound rfl rfl rfl trivial
    · obtain ⟨x, rfl⟩ := hv.form
      obtain ⟨y, rfl⟩ := hw.form
      exact pure_sound rfl rfl rfl trivial
  | power =>
    obtain ⟨rfl, rfl, rfl⟩ := h
    obtain ⟨x, rfl⟩ := hv.form
    obtain ⟨y, rfl⟩ := hw.form
    exact pure_sound rfl rfl rfl trivial
  | compare op u =>
    obtain ⟨hcomputed, rfl, rfl, rfl⟩ := h
    rcases Typing.isComputed_cases hcomputed with ⟨k, rfl⟩ | rfl | rfl
    · obtain ⟨m, rfl⟩ := hv.form
      obtain ⟨n, rfl⟩ := hw.form
      have happly : (Binary.compare op (.int k)).apply host (.int k m) (.int k n) =
          pure (.bool (op.decides (compareOfLessAndEq m n))) := by simp [Binary.apply]
      exact pure_sound happly rfl rfl trivial
    · obtain ⟨x, rfl⟩ := hv.form
      obtain ⟨y, rfl⟩ := hw.form
      exact pure_sound rfl rfl rfl trivial
    · obtain ⟨x, rfl⟩ := hv.form
      obtain ⟨y, rfl⟩ := hw.form
      exact pure_sound rfl rfl rfl trivial
  | textEqual ignoreCase negated =>
    obtain ⟨rfl, rfl, rfl⟩ := h
    obtain ⟨x, rfl⟩ := hv.form
    obtain ⟨y, rfl⟩ := hw.form
    exact pure_sound rfl rfl rfl trivial
  | sameObject negated =>
    obtain rfl := h
    refine ⟨trivial, ?_⟩
    simp only [Binary.apply]
    split
    · exact .pure (Host.has_of_type rfl rfl trivial)
    · exact .breakdown
  | compareEnum op =>
    obtain ⟨henum, rfl, rfl⟩ := h
    cases b with
    | enum name k =>
      obtain ⟨m, rfl⟩ := hv.form
      obtain ⟨n, rfl⟩ := hw.form
      exact pure_sound rfl rfl rfl trivial
    | _ => cases henum
  | shift left u =>
    obtain ⟨hint, rfl, rfl, rfl⟩ := h
    obtain ⟨k, rfl⟩ := Ty.eq_int_of_isIntegral hint
    obtain ⟨m, rfl⟩ := hv.form
    obtain ⟨n, rfl⟩ := hw.form
    have happly : (Binary.shift left (.int k)).apply host (.int k m) (.int .int n) =
        pure (.int k (shifted k left m n)) := by simp [Binary.apply]
    exact pure_sound happly rfl rfl trivial
  | bitwise op u =>
    obtain ⟨hint, rfl, rfl, rfl⟩ := h
    obtain ⟨k, rfl⟩ := Ty.eq_int_of_isIntegral hint
    obtain ⟨m, rfl⟩ := hv.form
    obtain ⟨n, rfl⟩ := hw.form
    have happly : (Binary.bitwise op (.int k)).apply host (.int k m) (.int k n) =
        pure (.int k (Formulary.bitwise k op m n)) := by simp [Binary.apply]
    exact pure_sound happly rfl rfl trivial
  | exclusive =>
    obtain ⟨rfl, rfl, rfl⟩ := h
    obtain ⟨x, rfl⟩ := hv.form
    obtain ⟨y, rfl⟩ := hw.form
    exact pure_sound rfl rfl rfl trivial
  | overload op f =>
    obtain ⟨hf, hparams, hresult⟩ := h
    have hhonest : f.Honest host := hf.elim (hops.binary op f) ((builtin_honest host).binary op f)
    have hgenuine : ∀ x ∈ [v, w], x.Genuine host := by
      intro x hx
      rcases List.mem_cons.1 hx with rfl | hx
      · exact hv.2
      · rw [List.mem_singleton.1 hx]
        exact hw.2
    refine ⟨Host.receives_of_has honest ?_, Host.invoke_gives honest hhonest hgenuine hresult⟩
    rw [hparams]
    exact .cons hv.1 (.cons hw.1 .nil)

theorem mem_of_lookup {key v : Value} {keys values : List Value}
    (h : Value.lookup key keys values = some v) :
    v ∈ values := by
  induction keys generalizing values with
  | nil => cases h
  | cons k keys ih =>
    cases values with
    | nil => cases h
    | cons w values =>
      rw [Value.lookup] at h
      split at h
      · cases h
        exact List.mem_cons_self
      · exact List.mem_cons_of_mem _ (ih h)

theorem itemAt_gives {items : List Value} (h : ∀ v ∈ items, host.Has t v) (n : Int) :
    host.Gives t (itemAt items n) := by
  unfold itemAt
  split
  · exact .failed
  · split
    · rename_i v hv
      exact .pure (h v (List.mem_of_getElem? hv))
    · exact .failed

/-- The items of a collection, of a genuine value, are of their type. -/
theorem has_of_mem_items {items : List Value}
    (h : (∀ v ∈ items, host.Fits t v) ∧ Value.AllGenuine host items) :
    ∀ v ∈ items, host.Has t v := fun v hv => ⟨h.1 v hv, Value.allGenuine_iff.1 h.2 v hv⟩

/-- An index gives a value of the type of the items. -/
theorem Host.item_gives {T : Ty} {key : Option Ty}
    (h : Build.itemType? T = some (t, key)) {c : Value}
    (hc : host.Has T c) (i : Value) : host.Gives t (host.item i c) := by
  have htype : c.type? = some T := by
    cases T with
    | string | slice | array | map | pointer => exact hc.1.type_eq rfl nofun
    | _ => cases h
  have hgenuine := hc.2
  cases c with
  | string x =>
    cases htype
    cases h
    refine itemAt_gives (fun v hv => ?_) _
    obtain ⟨code, -, rfl⟩ := List.mem_map.1 hv
    exact has_of_type rfl rfl trivial
  | map k u mark keys values =>
    cases htype
    cases h
    refine .bind fun found tally tally' hfound => ?_
    cases found with
    | none => exact .failed
    | some v =>
      refine .pure (has_of_mem_items hgenuine v ?_)
      unfold entry? at hfound
      simp only at hfound
      split at hfound
      · obtain ⟨hlookup, -⟩ := run_pure_eq_ok.1 hfound
        exact mem_of_lookup hlookup
      · exact absurd hfound run_breakdown_ne_ok
  | slice u mark items =>
    cases htype
    cases h
    exact itemAt_gives (has_of_mem_items hgenuine) _
  | array u items =>
    cases htype
    cases h
    exact itemAt_gives (has_of_mem_items hgenuine) _
  | pointer u mark content =>
    cases htype
    obtain ⟨hfits, hcontent⟩ := hgenuine
    cases content with
    | array w items =>
      cases u with
      | array n u =>
        cases h
        obtain ⟨-, rfl, -⟩ := Ty.array.inj (Option.some.inj (hfits.type_eq rfl nofun))
        exact itemAt_gives (has_of_mem_items hcontent) _
      | _ => cases h
    | _ => exact .breakdown
  | nil => exact .failed
  | missing u => exact .failed
  | _ => exact .breakdown

/-- A slice, an array or a map. -/
def Ty.isCollection : Ty → Bool
  | .slice .. | .array .. | .map .. => true
  | _ => false

theorem searchable_of_collection {T : Ty} (h : T.isCollection = true) {c : Value}
    (hc : host.Has T c) :
    c.isSearchable = true := by
  have htype : c.type? = some T := by
    cases T with
    | slice | array | map => exact hc.1.type_eq rfl nofun
    | _ => cases h
  cases c with
  | slice | array | map | missing => rfl
  | nil => cases htype
  | _ =>
    cases htype
    cases h

/-- What is searched is a collection or leads to one. -/
theorem searchable_of_has {T element : Ty} (h : Build.searchedType? T = some element) {c : Value}
    (hc : host.Has T c) :
    c.isSearchable = true := by
  cases T with
  | slice | array | map => exact searchable_of_collection rfl hc
  | pointer u =>
    have htype := hc.1.type_eq rfl nofun
    cases c with
    | pointer w mark content =>
      cases htype
      have hcontent : host.Has u content := hc.2
      show content.isSearchable = true
      cases u with
      | slice | array | map => exact searchable_of_collection rfl hcontent
      | _ => cases h
    | missing w => rfl
    | _ => cases htype
  | _ => cases h

/-- What a variable or a function on demand supplies is of the type asked for. -/
theorem coerce_gives (honest : host.Honest) {name : String} {v : Value} (hv : v.Genuine host) :
    host.Gives t (Store.coerce host name t v) := by
  obtain ⟨rank, ranked⟩ := honest.ranked
  unfold Store.coerce
  split
  · split
    · rename_i ht
      exact .pure ⟨.inl ht, trivial⟩
    · exact .pure (Host.zero_has ranked t)
  · rename_i u hu
    split
    · rename_i hsuits
      exact .pure ⟨Host.fits_of_suits hv hu hsuits, hv⟩
    · rename_i hother
      split
      · rename_i hassignable
        have hunderlying : u.underlying = t.underlying := by
          rw [Host.isAssignable, Bool.or_eq_true, Bool.and_eq_true, beq_iff_eq] at hassignable
          exact (hassignable.resolve_left hother).1
        exact .pure ⟨Host.fits_relabel hv hu hunderlying, hv.relabel _⟩
      · exact .failed

end Operation

end Formulary
