import Formulary.Proofs.Build.Resolved

/-!
# Numerals stay as they were read

The element of a tree remembers how it was written only if it is a numeral, read with a sign or
without one: every operator, call, member and index gives an element that is none.
-/

namespace Formulary

namespace Build

open Overload (Candidate)

def Blank (x : Except Failure Element) : Prop := ∀ e, x = .ok e → e.numeral? = none

namespace Blank

variable {α : Type} {x : Except Failure α} {f : α → Except Failure Element}

theorem bind (h : ∀ a, x = .ok a → Blank (f a)) : Blank (x >>= f) := by
  intro e he
  obtain ⟨a, ha, he⟩ := bind_eq_ok.1 he
  exact h a ha e he

theorem error (g : Failure) : Blank (.error g) := nofun

theorem ok {e : Element} (h : e.numeral? = none) : Blank (.ok e) := by
  rintro _ ⟨⟩
  exact h

end Blank

section Operators

variable {s : Scope} {op : Operator} {x y e : Element}

theorem blank_overloadedBinary? (h : overloadedBinary? s op x y = .ok (some e)) :
    e.numeral? = none := by
  obtain ⟨found, -, h⟩ := bind_eq_ok.1 h
  cases found with
  | none => cases h
  | some f =>
    simp only at h
    split at h
    · obtain ⟨a, -, h⟩ := bind_eq_ok.1 h
      obtain ⟨b, -, h⟩ := bind_eq_ok.1 h
      cases h
      rfl
    · cases h

theorem blank_overloadedUnary? (h : overloadedUnary? s op x = .ok (some e)) :
    e.numeral? = none := by
  obtain ⟨found, -, h⟩ := bind_eq_ok.1 h
  cases found with
  | none => cases h
  | some f =>
    simp only at h
    split at h
    · obtain ⟨a, -, h⟩ := bind_eq_ok.1 h
      cases h
      rfl
    · cases h

theorem blank_arithmetic : Blank (arithmetic s op x y) := by
  unfold arithmetic
  split
  · exact .ok rfl
  · refine .bind fun found hfound => ?_
    cases found with
    | some e => exact .ok (blank_overloadedBinary? hfound)
    | none =>
      simp only
      split
      · split
        · exact .bind fun _ _ => .ok rfl
        · exact .error _
      · split
        · exact .error _
        · exact .bind fun _ _ => .ok rfl

theorem blank_compare : Blank (compare s op x y) := by
  unfold compare
  split
  · split
    · exact .ok rfl
    · exact .error _
  · refine .bind fun found hfound => ?_
    cases found with
    | some e => exact .ok (blank_overloadedBinary? hfound)
    | none =>
      simp only
      split
      · exact .bind fun _ _ => .ok rfl
      · repeat' split
        all_goals first | exact .ok rfl | exact .error _

theorem blank_logical : Blank (logical s op x y) := by
  unfold logical
  split
  · split <;> exact .ok rfl
  · refine .bind fun found hfound => ?_
    cases found with
    | some e => exact .ok (blank_overloadedBinary? hfound)
    | none =>
      simp only
      split
      · exact .error _
      · exact .bind fun _ _ => .ok rfl

theorem blank_shift {left : Bool} : Blank (shift s left x y) := by
  unfold shift
  split
  · exact .error _
  · refine .bind fun _ _ => ?_
    split
    · exact .ok rfl
    · exact .error _

theorem blank_negation : Blank (negation s x) := by
  unfold negation
  split
  · exact .ok rfl
  · split
    · exact .ok rfl
    · refine .bind fun found hfound => ?_
      cases found with
      | some e => exact .ok (blank_overloadedUnary? hfound)
      | none => exact .error _

theorem blank_opposite : Blank (opposite s x) := by
  refine .bind fun found hfound => ?_
  cases found with
  | some e => exact .ok (blank_overloadedUnary? hfound)
  | none =>
    simp only
    split
    · exact .error _
    · exact .bind fun _ _ => .ok rfl

theorem blank_choice {c : Element} : Blank (choice s c x y) := by
  unfold choice
  split
  · exact .error _
  · simp only
    split
    · exact .error _
    · exact .bind fun _ _ => .ok rfl

theorem blank_cast {t : Ty} : Blank (cast s x t) := by
  unfold cast
  simp only
  generalize (if s.options.checked then _ else _ : Option (Option Conversion)) = found
  cases found with
  | some how => exact .ok rfl
  | none => exact .error _

theorem blank_amongCollection : Blank (amongCollection s x y) := by
  unfold amongCollection
  split
  · exact .error _
  · exact .bind fun _ _ => .ok rfl

theorem blank_indexOne : Blank (indexOne s x y) := by
  unfold indexOne
  split
  · exact .error _
  · exact .bind fun _ _ => .ok rfl
  · split
    · exact .ok rfl
    · exact .error _

end Operators

section Names

variable {s : Scope} {x : Element} {name : String} {args : List Element}

theorem blank_callBest {receiver : Option Element} {cands : List (Candidate Member)} :
    Blank (callBest s receiver name args cands) := by
  unfold callBest
  simp only
  split
  · exact .error _
  · split
    · refine .bind fun _ _ => ?_
      split
      · split
        · split
          · exact .bind fun _ _ => .ok rfl
          · exact .error _
        · exact .ok rfl
      · exact .ok rfl
      · exact .error _
    · exact .error _

theorem blank_firstCall : Blank (firstCall s name args) := by
  intro e h
  unfold firstCall at h
  simp only at h
  split at h
  · split at h
    · cases h
      rfl
    · cases h
  · split at h
    · cases h
    · exact blank_callBest e h

theorem blank_memberOf {r : Reference} : Blank (memberOf s x r) := by
  unfold memberOf
  simp only
  split
  · split
    · rename_i hread
      obtain ⟨m, -, rfl⟩ := readFirst_ok hread
      exact .ok rfl
    · exact .error _
    · exact .error _
  · split
    · exact .error _
    · exact blank_callBest

theorem blank_inNamespace {path : String} {members : List Member} {r : Reference} {e : Element}
    (h : inNamespace s path members r = .ok (.value e)) : e.numeral? = none := by
  unfold inNamespace at h
  simp only at h
  split at h
  · split at h
    · cases h
    · obtain ⟨e', he, heq⟩ := map_eq_ok.1 h
      cases heq
      exact blank_callBest e he
  · split at h
    · rename_i found hfirst
      cases h
      obtain ⟨m, -, heq⟩ := List.exists_of_findSome?_eq_some hfirst
      cases m with
      | constant n t v =>
        cases heq
        rfl
      | _ => cases heq
    · cases h

end Names

/-- What holds of all that is no numeral and of the literals, and of a numeral read anew with a sign
if it holds of the numeral, is kept however an element is built. -/
theorem numeral_kept {s : Scope} {T : Lexical.Token → Prop} {P : Element → Prop}
    (blank : ∀ {e}, e.numeral? = none → P e) (literal : ∀ {t e}, T t →
      literal s.options t = .ok e → P e)
    (signed : ∀ {x n e}, P x → x.numeral? = some n →
      number s.options n.kind n.image true = .ok e → P e) :
    Kept s T P fun _ => True where
  literal := literal
  logical _ _ h := blank (blank_logical _ h)
  negation _ h := blank (blank_negation _ h)
  amongList _ _ h := blank ((Blank.bind fun _ _ => .ok rfl) _ h)
  amongCollection _ _ h := blank (blank_amongCollection _ h)
  shift _ _ h := blank (blank_shift _ h)
  compare _ _ h := blank (blank_compare _ h)
  arithmetic _ _ h := blank (blank_arithmetic _ h)
  minus hx h := by
    rw [minus_eq] at h
    split at h
    · rename_i n hn
      exact signed hx hn h
    · exact blank (blank_opposite _ h)
  choice _ _ _ h := blank (blank_choice _ h)
  cast _ h := blank (blank_cast _ h)
  first := by
    intro r subject _ h
    unfold first at h
    split at h
    · cases subject with
      | value e =>
        refine blank ?_
        obtain ⟨m, t, o, rfl⟩ | ⟨t, v, rfl⟩ | ⟨t, rfl⟩ := firstName_value h <;> rfl
      | _ => trivial
    · obtain ⟨e, he, rfl⟩ := map_eq_ok.1 h
      exact blank (blank_firstCall _ he)
  next := by
    intro subject r subject' _ _ h
    cases subject with
    | value x =>
      obtain ⟨e, he, rfl⟩ := map_eq_ok.1 h
      exact blank (blank_memberOf _ he)
    | scope path members =>
      cases subject' with
      | value e => exact blank (blank_inNamespace h)
      | _ => trivial
    | type path => cases h
  indexOne _ _ h := blank (blank_indexOne _ h)

/-- A literal is no numeral, or it is the numeral of its token. -/
theorem literal_cases {o : Options} {t : Lexical.Token} {e : Element} (h : literal o t = .ok e) :
    e.numeral? = none ∨ number o t.kind t.image false = .ok e := by
  have hplain : ∀ {type : Ty} {v : Value}, plainConstant type v = .ok e → e.numeral? = none := by
    rintro type v ⟨⟩
    rfl
  unfold literal at h
  simp only at h
  repeat' split at h
  all_goals first
    | exact .inl (hplain h)
    | cases h
    | exact .inr h

/-- An element that is no numeral, or one that is read with a sign or without one. -/
def Spelled (o : Options) (e : Element) : Prop :=
  ∀ n, e.numeral? = some n → ∃ negated, number o n.kind n.image negated = .ok e

theorem spelled_of_blank {o : Options} {e : Element} (h : e.numeral? = none) : Spelled o e := by
  intro n hn
  rw [h] at hn
  cases hn

theorem spelled_of_number {o : Options} {kind : Lexical.Kind} {image : Text}
    {negated : Bool} {e : Element}
    (h : number o kind image negated = .ok e) : Spelled o e := by
  obtain ⟨v, rfl⟩ := exists_of_number h
  rintro n ⟨⟩
  exact ⟨negated, h⟩

theorem spelled_literal {o : Options} {t : Lexical.Token} {e : Element}
    (h : literal o t = .ok e) : Spelled o e :=
  (literal_cases h).elim spelled_of_blank spelled_of_number

/-- However an element is built, it is no numeral or was read as one. -/
theorem spelled_kept (s : Scope) : Kept s (fun _ => True) (Spelled s.options) fun _ => True :=
  numeral_kept spelled_of_blank (fun _ h => spelled_literal h) fun _ _ h => spelled_of_number h

/-- The element of a tree is no numeral or was read as one. -/
theorem spelled_element {s : Scope} {t : Grammar.Tree} {e : Element} (h : element s t = .ok e) :
    Spelled s.options e :=
  element_holds (spelled_kept s) (fun _ _ => trivial) h

end Build

end Formulary
