import Formulary.Build.Operate
import Formulary.Element.Evaluate
import Formulary.Proofs.Host.Honest
import Formulary.Proofs.Machine.Flow
import Formulary.Proofs.Value.Whole

/-!
# Positions in texts and collections

An index is read through 64 bits, as a signed number or, for `ulong` on collections, as an unsigned
one. Neither loses a position: a number that is not read as itself is read as a negative one, and
nothing is long enough to have it as a position. So an index of any type of integers gives the item
whose position it is, and fails everywhere else (`index_exact`).
-/

namespace Formulary

open IntKind (holds_iff wrap_of_holds wrap_cases)

/-- The items that stand at the positions of a value: the characters of a text, or the items of a
slice, an array or an array behind a pointer. -/
def Value.sequence? : Value → Option (List Value)
  | .string t => some (t.codes.map fun c => .char (Int.ofNat c))
  | .slice _ _ items _ | .array _ items _ | .pointer _ _ (.array _ items _) _ => some items
  | _ => none

/-- An element gives a value, whatever was evaluated before it, and takes one tally to another. -/
def Element.Yields (env : Environment) (e : Element) (v : Value) (tally tally' : Tally) : Prop :=
  ∀ last, (e.eval env last).run tally = (.ok v, tally')

variable {k : IntKind} {n m : Int} {items : List Value} {c v : Value}

theorem itemAt_eq_pure (hn : 0 ≤ n) (hv : items[n.toNat]? = some v) : itemAt items n = pure v := by
  rw [itemAt, if_neg (by omega), hv]

theorem itemAt_eq_failed (h : n < 0 ∨ items.length ≤ n) :
    itemAt items n = failed (outOfRange n) := by
  unfold itemAt
  split
  · rfl
  · have hnone : items[n.toNat]? = none := List.getElem?_eq_none (by omega)
    rw [hnone]

/-- A number of any type of integers is read through 64 bits as itself, or is too large and read as
a negative one. -/
theorem IntKind.wrap_long_cases (hn : k.holds n = true) :
    IntKind.long.wrap n = n ∨ IntKind.long.high < n ∧ IntKind.long.wrap n < 0 := by
  have hlow : IntKind.long.low ≤ k.low := by cases k <;> decide
  have hhigh : k.high ≤ IntKind.long.high + IntKind.long.high + 1 := by cases k <;> decide
  have hcount : IntKind.long.count = IntKind.long.high + IntKind.long.high + 2 := by decide
  have hpos := IntKind.long.high_pos
  rw [holds_iff] at hn
  rcases wrap_cases (k := .long) (n := n) (by omega) (by omega) with ⟨-, h⟩ | ⟨h, -⟩ | ⟨h, hwrap⟩
  · exact .inl h
  · omega
  · exact .inr ⟨h, by omega⟩

/-- How an index of a type of integers is read: as itself, or too large and as a negative number. -/
def ReadAs (n m : Int) : Prop := m = n ∨ IntKind.long.high < n ∧ m < 0

/-- Where an index is not read as itself, there is no position for it either way. -/
theorem ReadAs.item (h : ReadAs n m) (hlength : items.length ≤ IntKind.long.high) :
    (∀ v, 0 ≤ n → items[n.toNat]? = some v → itemAt items m = pure v) ∧
    (n < 0 ∨ items.length ≤ n → itemAt items m = failed (outOfRange m)) := by
  refine ⟨fun v hn hv => ?_, fun hout => ?_⟩
  · have hless : n.toNat < items.length := (List.getElem?_eq_some_iff.1 hv).1
    obtain rfl | ⟨hlarge, -⟩ := h
    · exact itemAt_eq_pure hn hv
    · omega
  · refine itemAt_eq_failed ?_
    obtain rfl | ⟨-, hneg⟩ := h
    · exact hout
    · exact .inl hneg

/-- The item at an integer is the one at the number that the integer is read as, which equals it
modulo 64 bits. -/
theorem Host.item_int (host : Host) (hn : k.holds n = true) (hc : c.sequence? = some items) :
    ∃ m, ReadAs n m ∧ m ≡ n [ZMOD 2 ^ 64] ∧ host.item (.int k n) c = itemAt items m := by
  have hwrap : ReadAs n (IntKind.long.wrap n) := IntKind.wrap_long_cases hn
  have hmod : IntKind.long.wrap n ≡ n [ZMOD 2 ^ 64] := IntKind.long.wrap_modEq n
  have hnumber : ∃ m, ReadAs n m ∧ m ≡ n [ZMOD 2 ^ 64] ∧ indexNumber (.int k n) = m := by
    cases k with
    | ulong => exact ⟨n, .inl rfl, rfl, rfl⟩
    | _ => exact ⟨_, hwrap, hmod, rfl⟩
  obtain ⟨m, hm, hmodm, hindex⟩ := hnumber
  cases c with
  | string t =>
    cases hc
    exact ⟨_, hwrap, hmod, rfl⟩
  | slice | array =>
    cases hc
    exact ⟨m, hm, hmodm, congrArg (itemAt items) hindex⟩
  | pointer t mark content =>
    cases content with
    | array =>
      cases hc
      exact ⟨m, hm, hmodm, congrArg (itemAt items) hindex⟩
    | _ => cases hc
  | _ => cases hc

variable {env : Environment} {collection position : Element} {tally tally₁ tally₂ : Tally} {t : Ty}
  {last : Option Value}

/-- Indexing evaluates the collection and then the index. -/
theorem Element.run_index {i : Value} (hc : collection.Yields env c tally tally₁)
    (hi : position.Yields env i tally₁ tally₂) (last : Option Value) :
    ((Element.index t collection position).eval env last).run tally =
      (env.host.item i c).run tally₂ := by
  rw [Element.eval, Machine.run_bind_eq, hc last]
  show (position.eval env (some c) >>= fun i => env.host.item i c).run tally₁ = _
  rw [Machine.run_bind_eq, hi (some c)]

/-- A value with positions can be indexed by any type of integers. -/
theorem Build.indexOne_eq (s : Scope) (hcollection : itemType? collection.type = some (t, none))
    (hposition : position.type = .int k) : indexOne s collection position =
    .ok (.index t collection position) := by
  simp only [indexOne, hcollection, hposition]
  rfl

/-- A text, slice, array or array behind a pointer at an integer of any type: its item at the
position that is this number, and for a number that is no position an index out of range. -/
theorem index_exact (s : Scope) (hcollection : Build.itemType? collection.type = some (t, none))
    (hposition : position.type = .int k) (hheld : k.holds n = true)
    (hitems : c.sequence? = some items)
    (hlength : items.length ≤ IntKind.long.high) (hc : collection.Yields env c tally tally₁)
    (hn : position.Yields env (.int k n) tally₁ tally₂) :
    ∃ e, Build.indexOne s collection position = .ok e ∧ e.type = t ∧
      (∀ v, 0 ≤ n → items[n.toNat]? = some v → e.Yields env v tally tally₂) ∧
      (n < 0 ∨ items.length ≤ n →
        ∃ m, m ≡ n [ZMOD 2 ^ 64] ∧ ∀ last, (e.eval env last).run tally =
          (.error (outOfRange m), tally₂)) := by
  obtain ⟨m, hread, hmod, hitem⟩ := env.host.item_int hheld hitems
  obtain ⟨hstands, hout⟩ := hread.item hlength
  have hrun := Element.run_index (t := t) hc hn
  refine ⟨_, Build.indexOne_eq s hcollection hposition, rfl, fun v hnonneg hv last => ?_, fun h =>
    ⟨m, hmod, fun last => ?_⟩⟩
  · rw [hrun, hitem, hstands v hnonneg hv]
    rfl
  · rw [hrun, hitem, hout h]
    rfl

/-- The text `żb` at 1, which is the place of its second character and third byte, and at the
greatest `ulong`. -/
theorem index_exact_text :
    let s : Scope := ⟨.bare, {}, {}, [], {}, none⟩
    let env : Environment := ⟨.bare, .nil, fun _ _ => breakdown, fun _ _ _ => breakdown⟩
    let text : Element := .constant .string (.string (Text.ofString "żb")) none
    let place (n : Int) : Element := .constant (.int .ulong) (.int .ulong n) none
    (∃ e, Build.indexOne s text (place 1) = .ok e ∧ e.Yields env (.char 98) [] []) ∧
    ∃ e, Build.indexOne s text (place IntKind.ulong.high) = .ok e ∧
      ∃ m, ∀ last, (e.eval env last).run [] = (.error (outOfRange m), []) := by
  intro s env text place
  have hitems : (Value.string (Text.ofString "żb")).sequence? = some [.char 380, .char 98] := rfl
  have hlength : ([.char 380, .char 98] : List Value).length ≤ IntKind.long.high := by decide
  have htext : text.Yields env (.string (Text.ofString "żb")) [] [] := fun last => by
    rw [Element.eval]; rfl
  have hplace : ∀ n, (place n).Yields env (.int .ulong n) [] [] := fun n last => by
    rw [Element.eval]; rfl
  refine ⟨?_, ?_⟩
  · obtain ⟨e, he, -, hstands, -⟩ := index_exact (n := 1) s rfl rfl (by decide) hitems hlength
      htext (hplace 1)
    exact ⟨e, he, hstands _ (by decide) rfl⟩
  · obtain ⟨e, he, -, -, hout⟩ := index_exact s rfl rfl (by decide) hitems hlength htext
      (hplace IntKind.ulong.high)
    obtain ⟨m, -, hm⟩ := hout (.inr (by decide))
    exact ⟨e, he, m, hm⟩

end Formulary
