import Formulary.Proofs.Element.Chain

/-!
# Labels of elements

The lines of every element are forward, and their labels are the ones taken into use for them. For a
tree of conditions this needs that an operand never jumps past the last one: the operands skipped by
an operator are those on its right side and on the right sides of the operators after it.
-/

namespace Formulary

open Machine Machine.Lines

theorem Condition.count_pos (condition : Condition) : 1 ≤ condition.count := by
  match condition with
  | .operand e => exact Nat.le_refl _
  | .join op left right =>
    have := left.count_pos
    rw [Condition.count]
    omega

theorem Condition.length_operands (condition : Condition) :
    condition.operands.length = condition.count := by
  match condition with
  | .operand e => rfl
  | .join op left right =>
    rw [Condition.operands, List.length_append, left.length_operands, right.length_operands,
      Condition.count]

theorem Condition.length_operators (condition : Condition) :
    condition.operators.length + 1 = condition.operands.length := by
  match condition with
  | .operand e => rfl
  | .join op left right =>
    have hl := left.length_operators
    have hr := right.length_operators
    simp only [Condition.operators, Condition.operands, List.length_append, List.length_cons]
    omega

/-- Every operator has operands on its right side. -/
theorem Condition.operators_wide (condition : Condition) : ∀ x ∈ condition.operators, 1 ≤ x.2 := by
  match condition with
  | .operand e => exact fun x hx => nomatch hx
  | .join op left right =>
    intro x hx
    rw [Condition.operators, List.mem_append, List.mem_cons] at hx
    rcases hx with hx | rfl | hx
    · exact left.operators_wide x hx
    · exact right.count_pos
    · exact right.operators_wide x hx

namespace Chain

/-- The operands skipped are those of the operators passed, of the hidden ones and one more, so that
one operand is left to go on at. -/
theorem resume?_le {kind : Logic} {skipped hidden n : Nat}
    {later : List (Logic × Nat)} (passed : Nat)
    (wide : ∀ x ∈ later, 1 ≤ x.2) (hs : skipped = passed + hidden + 1)
    (h : resume? kind skipped hidden later = some n) : n ≤ passed + later.length := by
  induction later generalizing skipped hidden passed with
  | nil => cases h
  | cons x later ih =>
    obtain ⟨other, right⟩ := x
    have hright : 1 ≤ right := wide _ List.mem_cons_self
    have hwide : ∀ x ∈ later, 1 ≤ x.2 := fun x hx => wide x (List.mem_cons_of_mem _ hx)
    rw [List.length_cons]
    cases hidden with
    | succ hidden =>
      rw [resume?] at h
      have := ih (passed + 1) hwide (by omega) h
      omega
    | zero =>
      rw [resume?] at h
      split at h
      · have := ih (passed + 1) hwide (by omega) h
        omega
      · injection h with h
        omega

/-- An operand jumps to one of the operands after it, if it jumps to an operand. -/
theorem goal_lt {place right j : Nat} {op : Logic} {later : List (Logic × Nat)} (hright : 1 ≤ right)
    (wide : ∀ x ∈ later, 1 ≤ x.2) (h : goal place op right later = .operand j) :
    j ≤ place + 1 + later.length := by
  rw [goal] at h
  split at h
  case h_1 n hn =>
    injection h with h
    have hle := resume?_le 0 wide (by omega) hn
    omega
  case h_2 => cases h

section Laid

variable {label : Goal → Option Nat} {finish : Nat}

theorem marks_entry (place : Nat) : marks (entry label place) =
    (label (.operand place)).toList := by
  rw [entry]
  cases label (.operand place) <;> rfl

/-- The labels of the lines of operands: those of operands that are jumped to, and those of each
operand's own lines. -/
theorem mem_marks_laid {l place : Nat} {bodies : List (Lines Instruction)}
    {later : List (Logic × Nat)} :
    l ∈ marks (laid label finish place bodies later) ↔
      (∃ j, place ≤ j ∧ j < place + bodies.length ∧ label (.operand j) = some l) ∨ ∃ b ∈ bodies,
        l ∈ marks b := by
  induction bodies generalizing place later with
  | nil =>
    simp only [laid, marks, List.not_mem_nil, List.length_nil, Nat.add_zero, false_and,
      exists_false, or_false, false_iff, not_exists]
    omega
  | cons b bodies ih =>
    have hmarks : l ∈ marks (laid label finish place (b :: bodies) later) ↔
        label (.operand place) = some l ∨ l ∈ marks b ∨
          l ∈ marks (laid label finish (place + 1) bodies later.tail) := by
      cases later with
      | nil => simp [laid, marks_entry, marks]
      | cons x later => simp [laid, marks_entry, marks]
    rw [hmarks, ih]
    constructor
    · rintro (h | h | ⟨j, hj, hlt, h⟩ | ⟨c, hc, h⟩)
      · exact .inl ⟨place, Nat.le_refl _, by simp, h⟩
      · exact .inr ⟨b, List.mem_cons_self, h⟩
      · exact .inl ⟨j, by omega, by simp only [List.length_cons]; omega, h⟩
      · exact .inr ⟨c, List.mem_cons_of_mem _ hc, h⟩
    · rintro (⟨j, hj, hlt, h⟩ | ⟨c, hc, h⟩)
      · rw [List.length_cons] at hlt
        by_cases hp : j = place
        · exact .inl (hp ▸ h)
        · exact .inr (.inr (.inl ⟨j, by omega, by omega, h⟩))
      · rcases List.mem_cons.1 hc with rfl | hc
        · exact .inr (.inl h)
        · exact .inr (.inr (.inr ⟨c, hc, h⟩))

structure Arranged (label : Goal → Option Nat) (bodies : List (Lines Instruction)) : Prop where
  distinct : ∀ g h l, label g = some l → label h = some l → g = h
  apart : ∀ b ∈ bodies, ∀ g l, label g = some l → l ∉ marks b
  forward : ∀ b ∈ bodies, Forward b
  disjoint : bodies.Pairwise fun a b => ∀ l ∈ marks a, l ∉ marks b

theorem Arranged.tail {b : Lines Instruction} {bodies : List (Lines Instruction)}
    (h : Arranged label (b :: bodies)) : Arranged label bodies where
  distinct := h.distinct
  apart c hc := h.apart c (List.mem_cons_of_mem _ hc)
  forward c hc := h.forward c (List.mem_cons_of_mem _ hc)
  disjoint := (List.pairwise_cons.1 h.disjoint).2

/-- The labels of an operand's own lines are not marked after it. -/
theorem Arranged.not_mem_laid {b : Lines Instruction} {bodies : List (Lines Instruction)}
    (h : Arranged label (b :: bodies)) {l place : Nat} {later : List (Logic × Nat)}
    (hl : l ∈ marks b) :
    l ∉ marks (laid label finish place bodies later) := by
  rw [mem_marks_laid]
  rintro (⟨j, -, -, hj⟩ | ⟨c, hc, hlc⟩)
  · exact h.apart b List.mem_cons_self _ l hj hl
  · exact (List.pairwise_cons.1 h.disjoint).1 c hc l hl hlc

/-- A label of a goal that is no operand from a place on is not marked by the operands from
there. -/
theorem Arranged.goal_not_mem_laid {bodies : List (Lines Instruction)}
    (h : Arranged label bodies) {g : Goal}
    {l place : Nat} {later : List (Logic × Nat)} (hg : label g = some l)
    (hne : ∀ j, place ≤ j → g ≠ .operand j) :
    l ∉ marks (laid label finish place bodies later) := by
  rw [mem_marks_laid]
  rintro (⟨j, hj, -, hl⟩ | ⟨c, hc, hl⟩)
  · exact hne j hj (h.distinct g _ l hg hl)
  · exact h.apart c hc g l hg hl

/-- One operand in front of forward lines. -/
theorem forward_operand {place : Nat} {b : Lines Instruction} {s : Step Nat Instruction}
    {rest : Lines Instruction}
    (hb : Forward b) (hrest : Forward rest) (target : ∀ l, s.target? = some l → l ∈ marks rest)
    (own : ∀ l ∈ marks b, l ∉ marks rest)
    (mark : ∀ l, label (.operand place) = some l → l ∉ marks b ∧ l ∉ marks rest) :
    Forward (entry label place ++ (b ++ Line.step s :: rest)) := by
  have hs : Forward (.step s :: rest) := forward_step.2 ⟨target, hrest⟩
  have hbody : Forward (b ++ Line.step s :: rest) := hb.append hs own
  refine Forward.append ?_ hbody fun l hl => ?_
  · rw [entry]
    cases label (.operand place) with
    | none => trivial
    | some l => exact ⟨List.not_mem_nil, trivial⟩
  · rw [marks_entry, Option.mem_toList] at hl
    have hm := mark l hl
    simp only [marks_append, marks, List.mem_append, not_or]
    exact hm

/-- The lines of operands are forward in front of lines that mark the end and the values jumped
to. -/
theorem forward_laid {place : Nat} {bodies : List (Lines Instruction)} {later : List (Logic × Nat)}
    {tail : Lines Instruction} (h : Arranged label bodies) (labelled : Labelled label place later)
    (wide : ∀ x ∈ later, 1 ≤ x.2) (length : bodies.length = later.length + 1) (htail : Forward tail)
    (hfinish : finish ∈ marks tail) (hvalue : ∀ b l, label (.value b) = some l → l ∈ marks tail)
    (hoff : ∀ l ∈ marks (laid label finish place bodies later), l ∉ marks tail) :
    Forward (laid label finish place bodies later ++ tail) := by
  induction bodies generalizing place later with
  | nil => simp at length
  | cons b bodies ih =>
    have hmarks : ∀ l, label (.operand place) = some l ∨ l ∈ marks b → l ∉ marks tail := by
      rintro l (hl | hl)
      · exact hoff l (mem_marks_laid.2 (.inl ⟨place, Nat.le_refl _, by simp, hl⟩))
      · exact hoff l (mem_marks_laid.2 (.inr ⟨b, List.mem_cons_self, hl⟩))
    have htails : ∀ l, l ∈ marks (laid label finish (place + 1) bodies later.tail) →
        l ∉ marks tail := by
      intro l hl
      refine hoff l (mem_marks_laid.2 ?_)
      rcases mem_marks_laid.1 hl with ⟨j, hj, hlt, hl⟩ | ⟨c, hc, hl⟩
      · exact .inl ⟨j, by omega, by simp only [List.length_cons]; omega, hl⟩
      · exact .inr ⟨c, List.mem_cons_of_mem _ hc, hl⟩
    -- The operand's own labels and its mark occur neither in the operands after it nor in the tail.
    have own : ∀ l ∈ marks b, l ∉ marks (laid label finish (place + 1) bodies
        later.tail ++ tail) := by
      intro l hl
      rw [marks_append, List.mem_append, not_or]
      exact ⟨h.not_mem_laid hl, hmarks l (.inr hl)⟩
    have mark : ∀ l, label (.operand place) = some l →
        l ∉ marks b ∧ l ∉ marks (laid label finish (place + 1) bodies later.tail ++ tail) := by
      intro l hl
      refine ⟨h.apart b List.mem_cons_self _ l hl, ?_⟩
      rw [marks_append, List.mem_append, not_or]
      refine ⟨h.tail.goal_not_mem_laid hl fun j hj he => ?_, hmarks l (.inl hl)⟩
      injection he with he
      omega
    cases later with
    | nil =>
      obtain rfl : bodies = [] := List.eq_nil_of_length_eq_zero (by simpa using length)
      have := forward_operand (h.forward b List.mem_cons_self) htail (s := .jump finish)
        (fun l hl => by cases hl; exact hfinish) own mark
      simpa [laid] using this
    | cons x later =>
      obtain ⟨op, right⟩ := x
      obtain ⟨⟨l, hl⟩, labelled⟩ := labelled
      have hrest := ih h.tail labelled (fun x hx => wide x (List.mem_cons_of_mem _ hx))
        (by simpa using length) htails
      have target : l ∈ marks (laid label finish (place + 1) bodies later ++ tail) := by
        rw [marks_append, List.mem_append]
        cases hg : goal place op right later with
        | operand j =>
          rw [hg] at hl
          have hlt := goal_lt (wide _ List.mem_cons_self) (fun x hx =>
            wide x (List.mem_cons_of_mem _ hx)) hg
          have hahead := goal_ahead hg
          simp only [List.length_cons] at length
          exact .inl (mem_marks_laid.2 (.inl ⟨j, by omega, by omega, hl⟩))
        | value b =>
          rw [hg] at hl
          exact .inr (hvalue b l hl)
      have := forward_operand (h.forward b List.mem_cons_self) hrest (s := .jumpIf op.decisive l)
        (fun m hm => by cases hm; exact target) own mark
      simpa [laid, hl] using this

/-- The labels of the end: those of the values that are jumped to, and its own. -/
theorem mem_marks_ending {l : Nat} :
    l ∈ marks (ending label finish) ↔ (∃ b, label (.value b) = some l) ∨ l = finish := by
  rw [ending]
  cases hf : label (.value false) <;> cases ht : label (.value true) <;>
    simp [marks, hf, ht, eq_comm, or_assoc]

theorem forward_ending (distinct : ∀ g h l, label g = some l → label h = some l → g = h)
    (hfinish : ∀ g, label g ≠ some finish) : Forward (ending label finish) := by
  have hf := hfinish (.value false)
  have ht := hfinish (.value true)
  have hd := distinct (.value false) (.value true)
  rw [ending]
  cases hlf : label (.value false) <;> cases hlt : label (.value true) <;>
    simp_all [Forward, marks, Step.target?]
  exact Ne.symm hd

theorem length_bodies (c : Chain) (es : List Element) :
    (bodies finish c es).length = es.length := by
  induction es generalizing c with
  | nil => rfl
  | cons e es ih => rw [bodies, List.length_cons, List.length_cons, ih]

end Laid

/-- The lines of each operand of a condition. -/
def parts (n : Nat) (condition : Condition) : List (Lines Instruction) :=
  bodies n { sheet := ⟨[], n + 1⟩, later := condition.operators } condition.operands

section Condition

variable {condition : Condition} (n : Nat) (h : ∀ e ∈ condition.operands, ∀ n, e.Tidy n)

include h

/-- The label of a goal is neither that of the end nor one that is not in use. -/
theorem label_lt {g : Goal} {l : Nat} (hl : (ofCondition n condition).label? g = some l) :
    n < l ∧ l < (ofCondition n condition).sheet.labels := by
  have r := condition.result n h
  refine ⟨?_, r.sound.below g l hl⟩
  rcases r.fresh g l hl with hnone | hle
  · cases hnone
  · exact hle

theorem arranged : Arranged (ofCondition n condition).label? (parts n condition) := by
  have r := condition.result n h
  exact ⟨r.sound.distinct, r.apart, r.forward, r.disjoint⟩

theorem labelled : Labelled (ofCondition n condition).label? 0 condition.operators :=
  (condition.result n h).labelled (by
    have hlen := condition.length_operators
    simp only
    omega)

end Condition

end Chain

namespace Element

theorem bodyAll_block {es : List Element} (h : ∀ e ∈ es, ∀ n, e.Tidy n) (n : Nat) :
    Block n (nextAll n es) (bodyAll n es) := by
  induction es generalizing n with
  | nil => exact .nil n
  | cons e es ih =>
    exact (h e List.mem_cons_self n).append (ih (fun x hx => h x (List.mem_cons_of_mem _ hx)) _)

/-- The labels of the tests of a membership test are the ones taken into use for them. -/
theorem bodyTests_within {es : List Element} (h : ∀ e ∈ es, ∀ n, e.Tidy n) (found n : Nat) :
    n ≤ nextAll n es ∧ ∀ l ∈ marks (bodyTests found n es), n ≤ l ∧ l < nextAll n es := by
  induction es generalizing n with
  | nil => exact ⟨Nat.le_refl n, fun l hl => nomatch hl⟩
  | cons e es ih =>
    have te := h e List.mem_cons_self n
    obtain ⟨hgrow, hin⟩ := ih (fun x hx => h x (List.mem_cons_of_mem _ hx)) (e.next n)
    have hle := te.grows
    refine ⟨Nat.le_trans hle hgrow, fun l hl => ?_⟩
    rw [nextAll]
    simp only [bodyTests, marks_append, marks, List.mem_append] at hl
    rcases hl with hl | hl
    · have hfirst := te.within l hl
      omega
    · have hrest := hin l hl
      omega

/-- The tests of a membership test are forward in front of lines that mark where they jump to. -/
theorem bodyTests_forward {es : List Element} (h : ∀ e ∈ es, ∀ n, e.Tidy n) (found n : Nat)
    {tail : Lines Instruction} (htail : Forward tail) (hfound : found ∈ marks tail)
    (hoff : ∀ l ∈ marks tail, l < n) : Forward (bodyTests found n es ++ tail) := by
  induction es generalizing n with
  | nil => exact htail
  | cons e es ih =>
    have te := h e List.mem_cons_self n
    have hes : ∀ x ∈ es, ∀ n, x.Tidy n := fun x hx => h x (List.mem_cons_of_mem _ hx)
    have hle := te.grows
    have hrest := ih hes (e.next n) fun l hl => Nat.lt_of_lt_of_le (hoff l hl) hle
    have hjump : Forward (.step (.jumpIf true found) ::
        (bodyTests found (e.next n) es ++ tail)) := by
      refine forward_step.2 ⟨fun l hl => ?_, hrest⟩
      cases hl
      rw [marks_append]
      exact List.mem_append_right _ hfound
    rw [bodyTests, List.append_assoc, List.cons_append]
    refine te.forward.append hjump fun l hl hmem => ?_
    have hown := te.within l hl
    rw [marks, marks_append, List.mem_append] at hmem
    rcases hmem with hmem | hmem
    · have hlater := (bodyTests_within hes found (e.next n)).2 l hmem
      omega
    · have htails := hoff l hmem
      omega

/-- A choice needs a label for its second branch and one for its end. -/
theorem tidy_choose {condition whenTrue whenFalse : Element} (n : Nat) (hc : ∀ n, condition.Tidy n)
    (ht : ∀ n, whenTrue.Tidy n) (hf : ∀ n, whenFalse.Tidy n) (t : Ty) :
    (choose t condition whenTrue whenFalse).Tidy n := by
  have hc := hc (n + 2)
  have ht := ht (condition.next (n + 2))
  have hf := hf (whenTrue.next (condition.next (n + 2)))
  have hcle := hc.grows
  have htle := ht.grows
  have hfle := hf.grows
  have hlast : Forward (whenFalse.body (whenTrue.next (condition.next (n + 2))) ++
      [Line.mark (n + 1)]) := by
    refine hf.forward.append ⟨List.not_mem_nil, trivial⟩ fun l hl hmem => ?_
    have hin := hf.within l hl
    simp only [marks, List.mem_singleton] at hmem
    omega
  have hsecond : Forward (.step (.jump (n + 1)) :: .mark n ::
      (whenFalse.body (whenTrue.next (condition.next (n + 2))) ++ [Line.mark (n + 1)])) := by
    refine forward_step.2 ⟨fun l hl => ?_, forward_mark.2 ⟨fun hmem => ?_, hlast⟩⟩
    · cases hl
      simp [marks]
    · simp only [marks_append, marks, List.mem_append, List.mem_singleton] at hmem
      rcases hmem with hmem | hmem
      · have hin := hf.within n hmem
        omega
      · omega
  have hfirst : Forward (.step (.jumpIf false n) :: (whenTrue.body (condition.next (n + 2)) ++
      Line.step (.jump (n + 1)) :: .mark n ::
        (whenFalse.body (whenTrue.next (condition.next (n + 2))) ++ [Line.mark (n + 1)]))) := by
    refine forward_step.2 ⟨fun l hl => ?_, ht.forward.append hsecond fun l hl hmem => ?_⟩
    · cases hl
      simp [marks]
    · have hown := ht.within l hl
      simp only [marks_append, marks, List.mem_append, List.mem_cons, List.not_mem_nil,
        or_false] at hmem
      rcases hmem with hmem | hmem | hmem
      · omega
      · have hin := hf.within l hmem
        omega
      · omega
  rw [Tidy, body_choose, next_choose]
  refine ⟨by omega, hc.forward.append hfirst fun l hl hmem => ?_, fun l hl => ?_⟩
  · have hown := hc.within l hl
    simp only [marks_append, marks, List.mem_append, List.mem_cons, List.not_mem_nil,
      or_false] at hmem
    rcases hmem with hmem | hmem | hmem | hmem
    · have hin := ht.within l hmem
      omega
    · omega
    · have hin := hf.within l hmem
      omega
    · omega
  · simp only [marks_append, marks, List.mem_append, List.mem_cons,
      List.not_mem_nil, or_false] at hl
    rcases hl with hl | hl | hl | hl | hl
    · have hin := hc.within l hl
      omega
    · have hin := ht.within l hl
      omega
    · omega
    · have hin := hf.within l hl
      omega
    · omega

/-- A membership test needs a label for the value found and one for its end. -/
theorem tidy_among {operand : Element} {tests : List Element} (n : Nat) (ho : ∀ n, operand.Tidy n)
    (ht : ∀ e ∈ tests, ∀ n, e.Tidy n) : (among operand tests).Tidy n := by
  have ho := ho (n + 2)
  have hole := ho.grows
  obtain ⟨htle, htin⟩ := bodyTests_within ht n (operand.next (n + 2))
  have hend : Forward ([.step .drop, .step (.push (.bool false)), .step (.jump (n + 1)),
      .mark n, .step .drop, .step (.push (.bool true)), .mark (n + 1)] : Lines Instruction) := by
    simp [Forward, marks, Step.target?]
  have htests := bodyTests_forward ht n (operand.next (n + 2)) hend (by simp [marks]) fun l hl => by
    simp only [marks, List.mem_cons, List.not_mem_nil, or_false] at hl
    omega
  rw [Tidy, body_among, next_among]
  refine ⟨by omega, ho.forward.append htests fun l hl hmem => ?_, fun l hl => ?_⟩
  · have hown := ho.within l hl
    simp only [marks_append, marks, List.mem_append, List.mem_cons, List.not_mem_nil,
      or_false] at hmem
    rcases hmem with hmem | hmem | hmem
    · have hin := htin l hmem
      omega
    · omega
    · omega
  · simp only [marks_append, marks, List.mem_append, List.mem_cons,
      List.not_mem_nil, or_false] at hl
    rcases hl with hl | hl | hl | hl
    · have hin := ho.within l hl
      omega
    · have hin := htin l hl
      omega
    · omega
    · omega

/-- A tree of conditions needs a label for its end and one for each goal that is jumped to. -/
theorem tidy_logic {condition : Condition} (n : Nat) (h : ∀ e ∈ condition.operands, ∀ n, e.Tidy n) :
    (logic condition).Tidy n := by
  have r := condition.result n h
  have hgrow : n + 1 ≤ (Chain.ofCondition n condition).sheet.labels := r.labels
  have harr := Chain.arranged n h
  have hlength : (Chain.parts n condition).length = condition.operators.length + 1 := by
    rw [Chain.parts, Chain.length_bodies, condition.length_operators]
  have hend : Forward (Chain.ending (Chain.ofCondition n condition).label? n) :=
    Chain.forward_ending harr.distinct fun g hg => Nat.lt_irrefl n (Chain.label_lt n h hg).1
  have hin : ∀ l ∈ marks (Chain.laid (Chain.ofCondition n condition).label? n 0
    (Chain.parts n condition)
      condition.operators), n < l ∧ l < (Chain.ofCondition n condition).sheet.labels := by
    intro l hl
    rcases Chain.mem_marks_laid.1 hl with ⟨j, -, -, hj⟩ | ⟨b, hb, hlb⟩
    · exact Chain.label_lt n h hj
    · exact r.within b hb l hlb
  have hoff : ∀ l ∈ marks (Chain.laid (Chain.ofCondition n condition).label? n 0
    (Chain.parts n condition)
      condition.operators), l ∉ marks (Chain.ending (Chain.ofCondition n condition).label? n) := by
    intro l hl hmem
    rcases Chain.mem_marks_ending.1 hmem with ⟨b, hb⟩ | rfl
    · exact harr.goal_not_mem_laid hb (fun j _ => nofun) hl
    · exact Nat.lt_irrefl l (hin l hl).1
  rw [Tidy, body_logic n condition h, next_logic]
  refine ⟨by omega, Chain.forward_laid harr (Chain.labelled n
    h) condition.operators_wide hlength hend
    (Chain.mem_marks_ending.2 (.inr rfl)) (fun b l hl => Chain.mem_marks_ending.2 (.inl ⟨b, hl⟩))
      hoff, fun l hl => ?_⟩
  rw [marks_append, List.mem_append, Chain.mem_marks_ending] at hl
  rcases hl with hl | ⟨b, hb⟩ | rfl
  · have := hin l hl
    omega
  · have := Chain.label_lt n h hb
    omega
  · omega

/-- The lines of every element are forward, and their labels are the ones taken into use for
them. -/
theorem tidy (e : Element) (n : Nat) : e.Tidy n := by
  induction e using Element.induction generalizing n with
  | constant t v numeral => exact .step n rfl
  | convert name how t inner ih =>
    cases how with
    | none => simpa [Tidy, next_convert] using ih n
    | some c => simpa [Tidy, next_convert] using (ih n).snoc rfl
  | unary op t operand ih => simpa [Tidy, next_unary] using (ih n).snoc rfl
  | binary op t left right ihl ihr =>
    simpa [Tidy, next_binary] using (ihl n).append ((ihr _).snoc rfl)
  | choose t condition whenTrue whenFalse ihc iht ihf => exact tidy_choose n ihc iht ihf t
  | logic condition ih => exact tidy_logic n ih
  | duplicate t => exact .step n rfl
  | among operand tests ih iht => exact tidy_among n ih iht
  | contains collection operand ihc ih =>
    simpa [Tidy, next_contains] using (ihc n).append ((ih _).snoc rfl)
  | owner t => exact .step n rfl
  | read m t receiver ih => simpa [Tidy, next_read] using (ih n).snoc rfl
  | call name fn spread t args ih => simpa [Tidy, next_call] using (bodyAll_block ih n).snoc rfl
  | invoke name signature spread t receiver args ih iha =>
    simpa [Tidy, next_invoke] using (ih n).append ((bodyAll_block iha _).snoc rfl)
  | variable_ name t => exact .step n rfl
  | demand name t args ih => simpa [Tidy, next_demand] using (bodyAll_block ih n).snoc rfl
  | index t receiver position ihr ihp =>
    simpa [Tidy, next_index] using (ihr n).append ((ihp _).snoc rfl)

end Element

end Formulary
