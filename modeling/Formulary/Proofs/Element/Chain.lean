import Formulary.Proofs.Element.Body

/-!
# The lines of a tree of conditions

The operands of a tree of `and` and `or` stand one after another, each with its jump behind it and,
if an earlier operand jumps to it, with a mark in front. Labels are given to goals as they are first
jumped to; `laid` are the lines once all labels are known, and `Chain.Result` collects what is known
about these labels: each belongs to one goal, and none is a label of an operand's own lines.
-/

namespace Formulary

open Machine Machine.Lines

/-- The lines of an element are forward, and their labels are the ones taken into use for them. -/
abbrev Element.Tidy (e : Element) (n : Nat) : Prop := Block n (e.next n) (e.body n)

namespace Chain

/-- The mark in front of an operand that is jumped to. -/
def entry (label : Goal → Option Nat) (place : Nat) : Lines Instruction :=
  ((label (.operand place)).map Line.mark).toList

/-- The lines of operands from a place on, with their marks and jumps. -/
def laid (label : Goal → Option Nat) (finish : Nat) :
    Nat → List (Lines Instruction) → List (Logic × Nat) → Lines Instruction
  | _, [], _ => []
  | place, b :: bodies, [] =>
    entry label place ++ (b ++ Line.step (.jump finish) :: laid label finish (place + 1) bodies [])
  | place, b :: bodies, (op, right) :: later =>
    entry label place ++
      (b ++ Line.step (.jumpIf op.decisive ((label (goal place op right later)).getD 0)) ::
      laid label finish (place + 1) bodies later)

/-- Every operand before the last jumps to a goal that has a label. -/
def Labelled (label : Goal → Option Nat) : Nat → List (Logic × Nat) → Prop
  | _, [] => True
  | place, (op, right) :: later =>
    (∃ l, label (goal place op right later) = some l) ∧ Labelled label (place + 1) later

def bodies (finish : Nat) : Chain → List Element → List (Lines Instruction)
  | _, [] => []
  | c, e :: es => e.body c.sheet.labels :: bodies finish (c.operand finish e) es

/-- Every label in use for a goal belongs to this goal alone. -/
structure Sound (c : Chain) : Prop where
  below : ∀ g l, c.label? g = some l → l < c.sheet.labels
  distinct : ∀ g h l, c.label? g = some l → c.label? h = some l → g = h

theorem label?_cons (c : Chain) (g h : Goal) (l : Nat) (sheet : Sheet Instruction) (place : Nat)
    (later : List (Logic × Nat)) :
    (⟨sheet, place, later, (g, l) :: c.labels⟩ : Chain).label? h =
      if g = h then some l else c.label? h := by
  by_cases hg : g = h
  · simp [label?, hg]
  · have hb : (g == h) = false := by simpa using hg
    simp [label?, hg, hb]

theorem arrive_eq (c : Chain) :
    c.arrive = { c with sheet := ⟨entry c.label? c.place ++ c.sheet.lines, c.sheet.labels⟩ } := by
  rw [arrive, entry]
  cases c.label? (.operand c.place) <;> rfl

def grown (c : Chain) (e : Element) : Lines Instruction :=
  (e.body c.sheet.labels).reverse ++ (entry c.label? c.place ++ c.sheet.lines)

/-- The last operand jumps to the end. -/
theorem operand_last (finish : Nat) (c : Chain) (e : Element) (h : c.later = []) :
    c.operand finish e =
      ⟨⟨.step (.jump finish) :: c.grown e, e.next c.sheet.labels⟩, c.place + 1, [], c.labels⟩ := by
  simp only [operand, arrive_eq, Element.write_mk, leave, h]
  rfl

/-- An operand jumps to the label of its goal if it has one. -/
theorem operand_labelled (finish : Nat) (c : Chain) (e : Element) {op : Logic} {right l : Nat}
    {later : List (Logic × Nat)} (h : c.later = (op, right) :: later)
    (hl : c.label? (goal c.place op right later) = some l) :
    c.operand finish e =
      ⟨⟨.step (.jumpIf op.decisive l) :: c.grown e, e.next c.sheet.labels⟩, c.place + 1,
        later, c.labels⟩ := by
  simp only [operand, arrive_eq, Element.write_mk, leave, h, withLabel]
  simp only [label?] at hl ⊢
  simp only [hl]
  rfl

/-- An operand whose goal has no label takes a new one into use. -/
theorem operand_unlabelled (finish : Nat) (c : Chain) (e : Element) {op : Logic} {right : Nat}
    {later : List (Logic × Nat)} (h : c.later = (op, right) :: later)
    (hl : c.label? (goal c.place op right later) = none) :
    c.operand finish e =
      ⟨⟨.step (.jumpIf op.decisive (e.next c.sheet.labels)) :: c.grown e,
        e.next c.sheet.labels + 1⟩,
        c.place + 1, later, (goal c.place op right later, e.next c.sheet.labels) :: c.labels⟩ := by
  simp only [operand, arrive_eq, Element.write_mk, leave, h, withLabel]
  simp only [label?] at hl ⊢
  simp only [hl]
  rfl

/-- A goal lies ahead of the operand that jumps to it. -/
theorem goal_ahead {place right j : Nat} {op : Logic} {later : List (Logic × Nat)}
    (h : goal place op right later = .operand j) : place < j := by
  rw [goal] at h
  split at h
  · injection h with h
    omega
  · cases h

structure Advance (finish : Nat) (c : Chain) (e : Element) : Prop where
  sound : (c.operand finish e).Sound
  labels : e.next c.sheet.labels ≤ (c.operand finish e).sheet.labels
  keeps : ∀ g l, c.label? g = some l → (c.operand finish e).label? g = some l
  behind : ∀ j ≤ c.place, (c.operand finish e).label? (.operand j) = c.label? (.operand j)
  fresh : ∀ g l, (c.operand finish e).label? g = some l → c.label? g = some l ∨
    e.next c.sheet.labels ≤ l

/-- An operand that takes no label into use but those of its own lines. -/
theorem Sound.advance_same {c : Chain} (sound : c.Sound) {finish : Nat} {e : Element}
    (tidy : e.Tidy c.sheet.labels) {lines : Lines Instruction} {later : List (Logic × Nat)}
    (he : c.operand finish e = ⟨⟨lines, e.next c.sheet.labels⟩, c.place + 1, later, c.labels⟩) :
    Advance finish c e := by
  have hl : ∀ g, (c.operand finish e).label? g = c.label? g := fun g => by rw [he]; rfl
  have hs : (c.operand finish e).sheet.labels = e.next c.sheet.labels := by rw [he]
  refine ⟨⟨fun g l h => ?_, fun g h l hg hh => ?_⟩, Nat.le_of_eq hs.symm, fun g l h =>
    ?_, fun j _ => hl _,
    fun g l h => ?_⟩
  · rw [hl] at h
    have hbelow := sound.below g l h
    have hgrow := tidy.grows
    omega
  · rw [hl] at hg hh
    exact sound.distinct g h l hg hh
  · rw [hl]
    exact h
  · exact .inl (hl g ▸ h)

/-- An operand that takes a label into use for its goal. -/
theorem Sound.advance_new {c : Chain} (sound : c.Sound) {finish : Nat} {e : Element}
    (tidy : e.Tidy c.sheet.labels)
    {lines : Lines Instruction} {later : List (Logic × Nat)} {goal : Goal}
    (hnone : c.label? goal = none) (ahead : ∀ j, goal = .operand j → c.place < j)
    (he : c.operand finish e = ⟨⟨lines, e.next c.sheet.labels + 1⟩, c.place + 1, later,
      (goal, e.next c.sheet.labels) :: c.labels⟩) :
    Advance finish c e := by
  have hgrow := tidy.grows
  have hs : (c.operand finish e).sheet.labels = e.next c.sheet.labels + 1 := by rw [he]
  have hl : ∀ h, (c.operand finish e).label? h =
      if goal = h then some (e.next c.sheet.labels) else c.label? h := by
    intro h
    rw [he, label?_cons]
  have hcases : ∀ g l, (c.operand finish e).label? g = some l →
      c.label? g = some l ∧ l < c.sheet.labels ∨ goal = g ∧ l = e.next c.sheet.labels := by
    intro g l h
    rw [hl] at h
    by_cases hg : goal = g
    · rw [if_pos hg] at h
      injection h with h
      exact .inr ⟨hg, h.symm⟩
    · rw [if_neg hg] at h
      exact .inl ⟨h, sound.below g l h⟩
  refine ⟨⟨fun g l h => ?_, fun g h l hg hh =>
    ?_⟩, by omega, fun g l h => ?_, fun j hj => ?_, fun g l h => ?_⟩
  · rcases hcases g l h with ⟨-, hlt⟩ | ⟨-, hlt⟩ <;> omega
  · rcases hcases g l hg with ⟨hg, hlt⟩ | ⟨hg, hlt⟩ <;> rcases hcases h l hh with
      ⟨hh, hlt'⟩ | ⟨hh, hlt'⟩
    · exact sound.distinct g h l hg hh
    · omega
    · omega
    · exact hg.symm.trans hh
  · have hg : goal ≠ g := by
      rintro rfl
      rw [hnone] at h
      cases h
    rw [hl, if_neg hg]
    exact h
  · rw [hl, if_neg]
    intro hg
    have hahead := ahead j hg
    omega
  · rcases hcases g l h with ⟨h, -⟩ | ⟨-, h⟩
    · exact .inl h
    · exact .inr (Nat.le_of_eq h.symm)

theorem Sound.advance {c : Chain} (sound : c.Sound) (finish : Nat) {e : Element}
    (tidy : e.Tidy c.sheet.labels) :
    Advance finish c e := by
  cases hlater : c.later with
  | nil => exact sound.advance_same tidy (operand_last finish c e hlater)
  | cons x later =>
    obtain ⟨op, right⟩ := x
    cases hlab : c.label? (goal c.place op right later) with
    | some l => exact sound.advance_same tidy (operand_labelled finish c e hlater hlab)
    | none =>
      exact sound.advance_new tidy hlab (fun j => goal_ahead)
        (operand_unlabelled finish c e hlater hlab)

/-- The goal of an operand has a label once its jump is written. -/
theorem operand_goal (finish : Nat) (c : Chain) (e : Element) {op : Logic} {right : Nat}
    {later : List (Logic × Nat)} (h : c.later = (op, right) :: later) :
    ∃ l, (c.operand finish e).label? (goal c.place op right later) = some l := by
  cases hlab : c.label? (goal c.place op right later) with
  | some l =>
    rw [operand_labelled finish c e h hlab]
    exact ⟨l, hlab⟩
  | none =>
    rw [operand_unlabelled finish c e h hlab, label?_cons, if_pos rfl]
    exact ⟨_, rfl⟩

theorem operand_place (finish : Nat) (c : Chain) (e : Element) :
    (c.operand finish e).place = c.place + 1 := by
  cases hlater : c.later with
  | nil => rw [operand_last finish c e hlater]
  | cons x later =>
    obtain ⟨op, right⟩ := x
    cases hlab : c.label? (goal c.place op right later) with
    | some l => rw [operand_labelled finish c e hlater hlab]
    | none => rw [operand_unlabelled finish c e hlater hlab]

theorem operand_later (finish : Nat) (c : Chain) (e : Element) :
    (c.operand finish e).later = c.later.tail := by
  cases hlater : c.later with
  | nil => rw [operand_last finish c e hlater, List.tail_nil]
  | cons x later =>
    obtain ⟨op, right⟩ := x
    cases hlab : c.label? (goal c.place op right later) with
    | some l => rw [operand_labelled finish c e hlater hlab, List.tail_cons]
    | none => rw [operand_unlabelled finish c e hlater hlab, List.tail_cons]

structure Result (finish : Nat) (c : Chain) (es : List Element) (r : Chain) : Prop where
  lines : r.sheet.lines = (laid r.label? finish c.place (bodies finish c es) c.later).reverse ++
    c.sheet.lines
  sound : r.Sound
  labels : c.sheet.labels ≤ r.sheet.labels
  keeps : ∀ g l, c.label? g = some l → r.label? g = some l
  behind : ∀ j ≤ c.place, r.label? (.operand j) = c.label? (.operand j)
  fresh : ∀ g l, r.label? g = some l → c.label? g = some l ∨ c.sheet.labels ≤ l
  apart : ∀ b ∈ bodies finish c es, ∀ g l, r.label? g = some l → l ∉ marks b
  forward : ∀ b ∈ bodies finish c es, Forward b
  within : ∀ b ∈ bodies finish c es, ∀ l ∈ marks b, c.sheet.labels ≤ l ∧ l < r.sheet.labels
  disjoint : (bodies finish c es).Pairwise fun a b => ∀ l ∈ marks a, l ∉ marks b
  labelled : c.later.length ≤ es.length → Labelled r.label? c.place c.later

/-- The lines of a chain after one operand, once the labels of all goals are known. -/
theorem operand_lines {finish : Nat} {c : Chain} {e : Element} {label : Goal → Option Nat}
    (bodies : List (Lines Instruction))
    (hentry : label (.operand c.place) = c.label? (.operand c.place))
    (keeps : ∀ g l, (c.operand finish e).label? g = some l → label g = some l) :
    (laid label finish (c.place + 1) bodies c.later.tail).reverse ++
      (c.operand finish e).sheet.lines =
      (laid label finish c.place (e.body c.sheet.labels :: bodies) c.later).reverse ++
        c.sheet.lines := by
  have he : (entry label c.place).reverse = entry c.label? c.place := by
    rw [entry, entry, hentry]
    cases c.label? (.operand c.place) <;> rfl
  cases hlater : c.later with
  | nil =>
    rw [operand_last finish c e hlater]
    simp [laid, grown, he]
  | cons x later =>
    obtain ⟨op, right⟩ := x
    have hgoal : ∀ l, (c.operand finish e).label? (goal c.place op right later) = some l →
        (label (goal c.place op right later)).getD 0 = l := by
      intro l hl
      rw [keeps _ l hl, Option.getD_some]
    cases hlab : c.label? (goal c.place op right later) with
    | some l =>
      have ho := operand_labelled finish c e hlater hlab
      rw [ho] at hgoal ⊢
      simp [laid, grown, he, hgoal l hlab]
    | none =>
      have ho := operand_unlabelled finish c e hlater hlab
      rw [ho] at hgoal ⊢
      simp [laid, grown, he, hgoal _ (by rw [label?_cons, if_pos rfl])]

theorem Sound.foldl_operand {c : Chain} (sound : c.Sound) (finish : Nat) {es : List Element}
    (tidy : ∀ e ∈ es, ∀ n, e.Tidy n) : Result finish c es (es.foldl (operand finish) c) := by
  induction es generalizing c with
  | nil =>
    refine ⟨rfl, sound, Nat.le_refl _, fun _ _ h => h, fun _ _ => rfl, fun _ _ h => .inl h,
      (fun b hb => nomatch hb), (fun b hb => nomatch hb), (fun b hb => nomatch hb),
      .nil, fun hlen => ?_⟩
    rw [List.eq_nil_of_length_eq_zero (Nat.le_zero.1 hlen)]
    trivial
  | cons e es ih =>
    have te := tidy e List.mem_cons_self c.sheet.labels
    have step := sound.advance finish te
    have rest := ih step.sound fun x hx => tidy x (List.mem_cons_of_mem _ hx)
    have hgrow := te.grows
    have hlabels := step.labels
    have hall := rest.labels
    -- A label of a goal was in use before the operand or is newer than the operand's own.
    have hold : ∀ g l, (es.foldl (operand finish) (c.operand finish e)).label? g = some l →
        c.label? g = some l ∧ l < c.sheet.labels ∨ e.next c.sheet.labels ≤ l := by
      intro g l h
      rcases rest.fresh g l h with h | h
      · rcases step.fresh g l h with h | h
        · exact .inl ⟨h, sound.below g l h⟩
        · exact .inr h
      · exact .inr (Nat.le_trans hlabels h)
    have hbehind : ∀ j ≤ c.place,
        (es.foldl (operand finish) (c.operand finish e)).label? (.operand j) =
          c.label? (.operand j) := by
      intro j hj
      rw [rest.behind j (by rw [operand_place]; omega), step.behind j hj]
    refine ⟨?_, rest.sound, by simp only [List.foldl_cons]; omega,
      fun g l h => rest.keeps g l (step.keeps g l h), hbehind, fun g l h => ?_, ?_, ?_, ?_, ?_,
      fun hlen => ?_⟩
    · rw [List.foldl_cons, rest.lines, operand_place, operand_later]
      exact operand_lines _ (hbehind c.place (Nat.le_refl _)) rest.keeps
    · rcases hold g l h with ⟨h, -⟩ | h
      · exact .inl h
      · exact .inr (Nat.le_trans hgrow h)
    · intro b hb g l h
      rcases List.mem_cons.1 hb with rfl | hb
      · intro hmem
        have hin := te.within l hmem
        rcases hold g l h with ⟨-, h⟩ | h <;> omega
      · exact rest.apart b hb g l h
    · intro b hb
      rcases List.mem_cons.1 hb with rfl | hb
      · exact te.forward
      · exact rest.forward b hb
    · intro b hb l hl
      rw [List.foldl_cons]
      rcases List.mem_cons.1 hb with rfl | hb
      · have hin := te.within l hl
        omega
      · have hin := rest.within b hb l hl
        omega
    · refine List.pairwise_cons.2 ⟨fun b hb l hl hmem => ?_, rest.disjoint⟩
      have hfirst := te.within l hl
      have hin := rest.within b hb l hmem
      omega
    · cases hlater : c.later with
      | nil => trivial
      | cons x later =>
        obtain ⟨op, right⟩ := x
        obtain ⟨l, hl⟩ := operand_goal finish c e hlater
        have hrest := rest.labelled (by rw [operand_later, List.length_tail]; simp at hlen; omega)
        rw [operand_place, operand_later, hlater, List.tail_cons] at hrest
        exact ⟨⟨l, rest.keeps _ l hl⟩, hrest⟩

/-- The values that are jumped to, false first, in front of the end. -/
def ending (label : Goal → Option Nat) (finish : Nat) : Lines Instruction :=
  (match label (.value false) with
    | some l =>
      .mark l :: .step (.push (.bool false)) ::
        (if (label (.value true)).isSome then [.step (.jump finish)] else [])
    | none => []) ++
  ((match label (.value true) with
    | some l => [.mark l, .step (.push (.bool true))]
    | none => []) ++ [Line.mark finish])

theorem close_eq (finish : Nat) (c : Chain) :
    c.close finish = ⟨(ending c.label? finish).reverse ++ c.sheet.lines, c.sheet.labels⟩ := by
  simp only [close, ending]
  cases c.label? (.value false) <;> cases c.label? (.value true) <;> rfl

def ofCondition (n : Nat) (condition : Condition) : Chain :=
  condition.operands.foldl (operand n) { sheet := ⟨[], n + 1⟩, later := condition.operators }

theorem sound_new (sheet : Sheet Instruction) (later : List (Logic × Nat)) :
    Sound { sheet := sheet, later := later } :=
  ⟨(fun _ _ h => nomatch h), (fun _ _ _ h => nomatch h)⟩

end Chain

/-- What is known about the lines and labels of a condition whose operands are tidy. -/
theorem Condition.result (n : Nat) (condition : Condition)
    (tidy : ∀ e ∈ condition.operands, ∀ n, e.Tidy n) :
    Chain.Result n { sheet := ⟨[], n + 1⟩, later := condition.operators } condition.operands
      (Chain.ofCondition n condition) :=
  (Chain.sound_new _ _).foldl_operand n tidy

namespace Element

/-- The lines of a tree of conditions: those of its operands, then the values that are jumped to. -/
theorem body_logic (n : Nat) (condition : Condition)
    (tidy : ∀ e ∈ condition.operands, ∀ n, e.Tidy n) :
    body n (.logic condition) =
      Chain.laid (Chain.ofCondition n condition).label? n 0
        (Chain.bodies n { sheet := ⟨[], n + 1⟩, later := condition.operators } condition.operands)
        condition.operators ++ Chain.ending (Chain.ofCondition n condition).label? n := by
  have hlines := (condition.result n tidy).lines
  rw [body, write]
  simp only [Condition.write_eq_foldl]
  rw [Chain.close_eq]
  show ((Chain.ending (Chain.ofCondition n condition).label? n).reverse ++
    (Chain.ofCondition n condition).sheet.lines).reverse = _
  rw [hlines]
  simp

theorem next_logic (n : Nat) (condition : Condition) :
    next n (.logic condition) = (Chain.ofCondition n condition).sheet.labels := by
  rw [next, write]
  simp only [Condition.write_eq_foldl]
  rw [Chain.close_eq]
  rfl

end Element

end Formulary
