import Mathlib.Data.List.Forall2
import Formulary.Host.Member

/-!
# Genuine values

A place of a declared type holds a value of exactly this type or, if it is declared as an interface,
no value or one whose type offers its methods. A value is genuine if the same holds for everything
within it. Zero values are genuine: records nest only as deep as there are records, since none holds
itself.
-/

namespace Formulary

/-- Whether a value is one of a declared type. No value at all is one of every interface and of the
type of null. -/
def Host.Fits (host : Host) (t : Ty) (v : Value) : Prop :=
  match v.type? with
  | none => t.isInterface = true ∨ t = .null
  | some u => if t.isInterface then host.implements u t = true else u = t

mutual

/-- A value whose parts are of the types declared for them. -/
def Value.Genuine (host : Host) : Value → Prop
  | .record name fields => List.Forall₂ (fun f v => host.Fits f.type v) (host.fields name) fields ∧
      AllGenuine host fields
  | .missing t =>
    match t with
    | .pointer .. | .slice .. | .map .. => True
    | _ => False
  | .pointer t _ v _ => host.Fits t v ∧ v.Genuine host
  | .slice t _ items _ | .array t items _ => (∀ v ∈ items, host.Fits t v) ∧ AllGenuine host items
  | .map _ t _ _ values _ => (∀ v ∈ values, host.Fits t v) ∧ AllGenuine host values
  | _ => True

def Value.AllGenuine (host : Host) : List Value → Prop
  | [] => True
  | v :: rest => v.Genuine host ∧ AllGenuine host rest

end

/-- A genuine value of a declared type. -/
def Host.Has (host : Host) (t : Ty) (v : Value) : Prop := host.Fits t v ∧ v.Genuine host

section Fits

variable {host : Host} {t u : Ty} {v : Value}

theorem Value.allGenuine_iff {vs : List Value} : AllGenuine host vs ↔ ∀ v ∈ vs, v.Genuine host := by
  induction vs with
  | nil => simp [AllGenuine]
  | cons v vs ih => simp [AllGenuine, ih]

/-- Values have no interface for a type. -/
theorem Value.Genuine.not_interface (h : v.Genuine host) (hu : v.type? = some u) :
    u.isInterface = false := by
  cases v with
  | nil => cases hu
  | missing t =>
    cases hu
    cases u with
    | pointer | slice | map => rfl
    | _ => cases h
  | _ =>
    cases hu
    rfl

theorem Host.fits_of_type (h : v.type? = some t) (ht : t.isInterface = false) : host.Fits t v := by
  simp [Fits, h, ht]

/-- The type of a value that fits a type which is no interface. -/
theorem Host.Fits.type_eq (h : host.Fits t v) (ht : t.isInterface = false) (hn : t ≠ .null) :
    v.type? = some t := by
  unfold Fits at h
  split at h
  · simp [ht, hn] at h
  · rename_i u hu
    simp only [ht, Bool.false_eq_true, if_false] at h
    rw [hu, h]

theorem Host.suits_refl (t : Ty) : host.suits t t = true := by
  simp [suits]

theorem Host.fits_of_suits (h : v.Genuine host) (hu : v.type? = some u)
    (ha : host.suits u t = true) :
    host.Fits t v := by
  unfold Fits
  rw [hu]
  simp only [suits, Bool.or_eq_true, beq_iff_eq] at ha
  rcases ha with rfl | ha
  · simp [h.not_interface hu]
  · have ht : t.isInterface = true := (Bool.and_eq_true_iff.1 ha).1
    simp [ht, ha]

/-- What is accepted where a type is declared fits it. -/
theorem Host.fits_of_accepts (h : v.Genuine host) (ha : host.accepts t v = true) :
    host.Fits t v := by
  unfold accepts at ha
  split at ha
  · rename_i u hu
    exact fits_of_suits h hu ha
  · rename_i hu
    unfold Fits
    rw [hu]
    exact .inl ha

theorem Value.Genuine.relabel (h : v.Genuine host) (label : Option String) :
    (v.relabel label).Genuine host := by
  cases v with
  | missing t =>
    cases t with
    | pointer | slice | map => trivial
    | _ => cases h
  | _ => exact h

/-- A value of a type that is made of the same is one of a type under its label. -/
theorem Host.fits_relabel (h : v.Genuine host) (hu : v.type? = some u)
    (heq : u.underlying = t.underlying) :
    host.Fits t (v.relabel t.label?) := by
  have htype : (v.relabel t.label?).type? = some t := by
    rw [Value.type?_relabel, hu, Option.map_some, Ty.relabel_of_underlying heq]
  exact fits_of_type htype ((h.relabel _).not_interface htype)

/-- A value that fits can be stored, unless it is no value for the type of null. -/
theorem Host.Fits.accepts (h : host.Fits t v) (hv : v.type? = none → t.isInterface = true) :
    host.accepts t v = true := by
  unfold Fits at h
  unfold Host.accepts
  split at h
  · rename_i hu
    simp only [hu]
    exact hv hu
  · rename_i u hu
    simp only [hu, Host.suits, Bool.or_eq_true, beq_iff_eq]
    split at h
    · exact .inr h
    · exact .inl h

/-- A type that offers every method of an interface does so through other interfaces too. -/
theorem Host.implements_trans {s : Ty} (h : host.implements s u = true)
    (h' : host.implements u t = true) :
    host.implements s t = true := by
  simp only [Host.implements, Bool.and_eq_true, List.all_eq_true, List.contains_iff_mem] at h h' ⊢
  exact ⟨h'.1, fun m hm => h.2 m (h'.2 m hm)⟩

/-- A value of a type that implements an interface is one of the interface. -/
theorem Host.Fits.of_implements (h : host.Fits u v) (hi : host.implements u t = true) :
    host.Fits t v := by
  have ht : t.isInterface = true := (Bool.and_eq_true_iff.1 hi).1
  unfold Fits at h ⊢
  split at h
  · exact .inl ht
  · rename_i w hw
    rw [if_pos ht]
    split at h
    · exact implements_trans h hi
    · exact h ▸ hi

/-- What can be stored where a type is declared can be stored wherever values of this type can
be. -/
theorem Host.Fits.isAssignable {target : Ty} (h : host.Fits t v) (hu : v.type? = some u)
    (ha : host.isAssignable t target = true) : host.isAssignable u target = true := by
  unfold Fits at h
  rw [hu] at h
  by_cases ht : t.isInterface = true
  · simp only [ht, if_true] at h
    simp only [Host.isAssignable, Host.suits, Bool.or_eq_true, beq_iff_eq] at ha ⊢
    obtain (rfl | himplements) | hunderlying := ha
    · exact .inl (.inr h)
    · exact .inl (.inr (implements_trans h himplements))
    · -- an interface is made of nothing else and has no label to lose
      cases t with
      | object | face => cases target <;> simp_all [Ty.underlying, Ty.relabel, Ty.isUnlabelled]
      | _ => cases ht
  · simp only [ht] at h
    exact h ▸ ha

end Fits

/-- The record that lies within a value of a type, as it is or in arrays. -/
def Ty.inlined? : Ty → Option String
  | .record name => some name
  | .array _ t _ => t.inlined?
  | _ => none

/-- Records lie only within records of a higher rank, and there are no more ranks than records. -/
def Host.Ranked (host : Host) (rank : String → Nat) : Prop :=
  ∀ name, rank name ≤ host.records.length ∧
    ∀ f ∈ host.fields name, ∀ inner, f.type.inlined? = some inner → rank inner < rank name

section Zero

variable {host : Host} {rank : String → Nat}

theorem zeroOf_has {zeroRecord : String → Value} (t : Ty)
    (h : ∀ name, t.inlined? = some name → host.Has (.record name) (zeroRecord name)) :
    host.Has t (Host.zeroOf zeroRecord t) := by
  induction t with
  | record name => exact h name rfl
  | array n t label ih =>
    obtain ⟨hfits, hgenuine⟩ := ih h
    refine ⟨Host.fits_of_type (by simp [Host.zeroOf, Value.type?]) rfl, fun v hv =>
      ?_, Value.allGenuine_iff.2 fun v hv => ?_⟩
    · rw [List.eq_of_mem_replicate hv]
      exact hfits
    · rw [List.eq_of_mem_replicate hv]
      exact hgenuine
  | object => exact ⟨.inl rfl, trivial⟩
  | face name => exact ⟨.inl rfl, trivial⟩
  | _ => exact ⟨Host.fits_of_type rfl rfl, trivial⟩

theorem zeroRecord_has (ranked : host.Ranked rank) {fuel : Nat} {name : String}
    (h : rank name < fuel) :
    host.Has (.record name) (host.zeroRecord fuel name) := by
  induction fuel generalizing name with
  | zero => exact absurd h (Nat.not_lt_zero _)
  | succ fuel ih =>
    have hfield : ∀ f ∈ host.fields name, host.Has f.type
        (Host.zeroOf (host.zeroRecord fuel) f.type) := by
      intro f hf
      refine zeroOf_has f.type fun inner hinner => ih ?_
      have hlt := (ranked name).2 f hf inner hinner
      omega
    refine ⟨Host.fits_of_type rfl rfl, ?_, Value.allGenuine_iff.2 fun v hv => ?_⟩
    · rw [List.forall₂_map_right_iff, List.forall₂_same]
      exact fun f hf => (hfield f hf).1
    · obtain ⟨f, hf, rfl⟩ := List.mem_map.1 hv
      exact (hfield f hf).2

/-- The zero value of a type is one of its values. -/
theorem Host.zero_has (ranked : host.Ranked rank) (t : Ty) : host.Has t (host.zero t) :=
  zeroOf_has t fun name _ => zeroRecord_has ranked (Nat.lt_succ_of_le (ranked name).1)

end Zero

end Formulary
