import Formulary.Proofs.Element.Compilation
import Formulary.Proofs.Machine.Flow

/-!
# Elements without checks

The element that computes like another one but never tests for overflow. It has the same type and
needs as many instructions, and wherever the tests let a value through it gives the same value: a
test is the only thing that the two do differently, and it only turns a value into a failure.
-/

namespace Formulary

open Machine Machine.Lines

def Conversion.unchecked : Conversion → Conversion
  | .checked t => .numeric t
  | c => c

/-- The operation without a test for overflow. -/
def Unary.unchecked : Unary → Unary
  | .negate t _ => .negate t false
  | op => op

/-- The operation without a test for overflow. -/
def Binary.unchecked : Binary → Binary
  | .arithmetic op t _ => .arithmetic op t false
  | op => op

mutual

def Element.unchecked : Element → Element
  | .constant t v numeral => .constant t v numeral
  | .convert name how t inner => .convert name (how.map Conversion.unchecked) t inner.unchecked
  | .unary op t operand => .unary op.unchecked t operand.unchecked
  | .binary op t left right => .binary op.unchecked t left.unchecked right.unchecked
  | .choose t condition whenTrue whenFalse =>
    .choose t condition.unchecked whenTrue.unchecked whenFalse.unchecked
  | .logic condition => .logic condition.unchecked
  | .duplicate t => .duplicate t
  | .among operand tests => .among operand.unchecked (Element.uncheckedAll tests)
  | .contains collection operand => .contains collection.unchecked operand.unchecked
  | .owner t => .owner t
  | .read m t receiver => .read m t receiver.unchecked
  | .call name fn spread t args => .call name fn spread t (Element.uncheckedAll args)
  | .invoke name signature spread t receiver args =>
    .invoke name signature spread t receiver.unchecked (Element.uncheckedAll args)
  | .variable name t => .variable name t
  | .demand name t args => .demand name t (Element.uncheckedAll args)
  | .index t receiver position => .index t receiver.unchecked position.unchecked

def Element.uncheckedAll : List Element → List Element
  | [] => []
  | e :: es => e.unchecked :: Element.uncheckedAll es

def Condition.unchecked : Condition → Condition
  | .operand e => .operand e.unchecked
  | .join op left right => .join op left.unchecked right.unchecked

end

@[simp] theorem Element.uncheckedAll_eq (es : List Element) :
    uncheckedAll es = es.map unchecked := by
  induction es with
  | nil => rfl
  | cons e es ih => rw [uncheckedAll, ih, List.map_cons]

@[simp] theorem Element.type_unchecked (e : Element) : e.unchecked.type = e.type := by
  cases e <;> simp [unchecked, type]

theorem Element.condition_unchecked (e : Element) :
    e.unchecked.condition = e.condition.unchecked := by
  cases e <;> simp [unchecked, condition, Condition.unchecked]

theorem Condition.operands_unchecked (c : Condition) :
    c.unchecked.operands = c.operands.map Element.unchecked := by
  match c with
  | .operand e => simp [unchecked, operands]
  | .join op left right =>
    simp [unchecked, operands, operands_unchecked left, operands_unchecked right]

theorem Condition.count_unchecked (c : Condition) : c.unchecked.count = c.count := by
  match c with
  | .operand e => simp [unchecked, count]
  | .join op left right => simp [unchecked, count, count_unchecked left, count_unchecked right]

theorem Condition.operators_unchecked (c : Condition) : c.unchecked.operators = c.operators := by
  match c with
  | .operand e => simp [unchecked, operators]
  | .join op left right =>
    simp [unchecked, operators, operators_unchecked left, operators_unchecked right,
      count_unchecked right]

section Code

def Instruction.unchecked : Instruction → Instruction
  | .convert name t how => .convert name t how.unchecked
  | .unary op t => .unary op.unchecked t
  | .binary op t => .binary op.unchecked t
  | i => i

def Machine.Step.unchecked : Step Nat Instruction → Step Nat Instruction
  | .act i => .act i.unchecked
  | s => s

def Machine.Line.unchecked : Line Instruction Nat → Line Instruction Nat
  | .mark l => .mark l
  | .step s => .step s.unchecked

def Machine.Sheet.unchecked (s : Sheet Instruction) : Sheet Instruction :=
  { s with lines := s.lines.map Line.unchecked }

def Chain.unchecked (c : Chain) : Chain := { c with sheet := c.sheet.unchecked }

theorem Machine.Sheet.step_unchecked (s : Sheet Instruction) (x : Step Nat Instruction) :
    (s.step x).unchecked = s.unchecked.step x.unchecked := rfl

theorem Machine.Sheet.mark_unchecked (s : Sheet Instruction) (l : Nat) :
    (s.mark l).unchecked = s.unchecked.mark l := rfl

theorem Machine.Sheet.reserve_unchecked (s : Sheet Instruction) (n : Nat) :
    (s.reserve n).unchecked = s.unchecked.reserve n := rfl

theorem Machine.Sheet.labels_unchecked (s : Sheet Instruction) :
    s.unchecked.labels = s.labels := rfl

theorem Chain.arrive_unchecked (c : Chain) : c.unchecked.arrive = c.arrive.unchecked := by
  have hl : c.unchecked.label? (.operand c.unchecked.place) = c.label? (.operand c.place) := rfl
  rw [arrive, arrive, hl]
  cases c.label? (.operand c.place) <;> rfl

theorem Chain.leave_unchecked (finish : Nat) (c : Chain) :
    c.unchecked.leave finish = (c.leave finish).unchecked := by
  obtain ⟨sheet, place, later, labels⟩ := c
  cases later with
  | nil => rfl
  | cons x later =>
    obtain ⟨op, right⟩ := x
    have hl : ∀ g, (⟨sheet, place, (op, right) :: later, labels⟩ : Chain).unchecked.label? g =
        (⟨sheet, place, (op, right) :: later, labels⟩ : Chain).label? g := fun _ => rfl
    simp only [leave, withLabel, hl]
    simp only [unchecked]
    cases (⟨sheet, place, (op, right) :: later, labels⟩ : Chain).label?
      (goal place op right later) <;> rfl

theorem Chain.close_unchecked (finish : Nat) (c : Chain) :
    c.unchecked.close finish = (c.close finish).unchecked := by
  have hl : ∀ g, c.unchecked.label? g = c.label? g := fun _ => rfl
  have hs : c.unchecked.sheet = c.sheet.unchecked := rfl
  simp only [close, hl, hs]
  cases c.label? (.value false) <;> cases c.label? (.value true) <;> rfl

namespace Element

variable {es : List Element}

theorem writeAll_unchecked (h : ∀ e ∈ es, ∀ s : Sheet Instruction,
    e.unchecked.write s.unchecked = (e.write s).unchecked)
    (s : Sheet Instruction) : writeAll (es.map unchecked) s.unchecked =
    (writeAll es s).unchecked := by
  induction es generalizing s with
  | nil => rfl
  | cons e es ih =>
    rw [List.map_cons, writeAll, writeAll, h e List.mem_cons_self, ih fun x hx =>
      h x (List.mem_cons_of_mem _ hx)]

theorem writeTests_unchecked
    (h : ∀ e ∈ es, ∀ s : Sheet Instruction, e.unchecked.write s.unchecked = (e.write s).unchecked)
    (found : Nat)
    (s : Sheet Instruction) : writeTests found (es.map unchecked) s.unchecked =
    (writeTests found es s).unchecked := by
  induction es generalizing s with
  | nil => rfl
  | cons e es ih =>
    rw [List.map_cons, writeTests, writeTests, h e List.mem_cons_self, ← ih fun x hx =>
      h x (List.mem_cons_of_mem _ hx)]
    rfl

theorem foldl_operand_unchecked
    (h : ∀ e ∈ es, ∀ s : Sheet Instruction, e.unchecked.write s.unchecked = (e.write s).unchecked)
    (finish : Nat) (c : Chain) :
    (es.map unchecked).foldl (Chain.operand finish) c.unchecked =
      (es.foldl (Chain.operand finish) c).unchecked := by
  induction es generalizing c with
  | nil => rfl
  | cons e es ih =>
    have ho : c.unchecked.operand finish e.unchecked = (c.operand finish e).unchecked := by
      have hw := h e List.mem_cons_self c.arrive.sheet
      rw [Chain.operand, Chain.arrive_unchecked, Chain.operand, ← Chain.leave_unchecked]
      simp only [Chain.unchecked, hw]
    rw [List.map_cons, List.foldl_cons, List.foldl_cons, ho, ih fun x hx =>
      h x (List.mem_cons_of_mem _ hx)]

/-- An element without tests is written as the element is, up to the tests of its instructions. -/
theorem write_unchecked (e : Element) (s : Sheet Instruction) :
    e.unchecked.write s.unchecked = (e.write s).unchecked := by
  induction e using Element.induction generalizing s with
  | constant t v numeral => simp only [unchecked, write]; rfl
  | convert name how t inner ih =>
    cases how with
    | none => simp only [unchecked, write, Option.map_none, ih]
    | some c => simp only [unchecked, write, Option.map_some, ih]; rfl
  | unary op t operand ih => simp only [unchecked, write, ih, type_unchecked]; rfl
  | binary op t left right ihl ihr => simp only [unchecked, write, ihl, ihr, type_unchecked]; rfl
  | choose t condition whenTrue whenFalse ihc iht ihf =>
    simp only [unchecked, write, Sheet.mark_unchecked, ← ihf, Sheet.step_unchecked, ← iht, ← ihc,
      Sheet.reserve_unchecked, Sheet.labels_unchecked]
    rfl
  | logic condition ih =>
    simp only [unchecked, write, Condition.write_eq_foldl, Condition.operands_unchecked,
      Condition.operators_unchecked]
    rw [← Chain.close_unchecked, ← foldl_operand_unchecked ih]
    rfl
  | duplicate t => simp only [unchecked, write]; rfl
  | among operand tests ih iht =>
    simp only [unchecked, write, uncheckedAll_eq, Sheet.mark_unchecked, Sheet.step_unchecked,
      ← writeTests_unchecked iht, ← ih, Sheet.reserve_unchecked, Sheet.labels_unchecked]
    rfl
  | contains collection operand ihc ih => simp only [unchecked, write, ihc, ih, type_unchecked]; rfl
  | owner t => simp only [unchecked, write]; rfl
  | read m t receiver ih => simp only [unchecked, write, ih]; rfl
  | call name fn spread t args ih =>
    simp only [unchecked, write, uncheckedAll_eq, writeAll_unchecked ih, List.length_map]; rfl
  | invoke name signature spread t receiver args ih iha =>
    simp only [unchecked, write, uncheckedAll_eq, ih, writeAll_unchecked iha, List.length_map]; rfl
  | variable_ name t => simp only [unchecked, write]; rfl
  | demand name t args ih =>
    simp only [unchecked, write, uncheckedAll_eq, writeAll_unchecked ih, List.length_map]; rfl
  | index t receiver position ihr ihp => simp only [unchecked, write, ihr, ihp, type_unchecked]; rfl

theorem length_steps_unchecked (a : Lines Instruction) :
    (steps (a.map Line.unchecked)).length = (steps a).length := by
  induction a with
  | nil => rfl
  | cons x a ih => cases x <;> simp [Line.unchecked, steps, ih]

/-- An element without tests needs as many instructions as the element. -/
theorem isOk_program_unchecked (limit : Nat) (e : Element) :
    (e.unchecked.program limit).isOk = (e.program limit).isOk := by
  have hbody : e.unchecked.body 0 = (e.body 0).map Line.unchecked := by
    have hwrite := congrArg (·.lines.reverse) (write_unchecked e ⟨[], 0⟩)
    rw [body, body, List.map_reverse]
    exact hwrite
  rw [program_eq, program_eq, hbody, assembled_size, assembled_size, length_steps_unchecked]
  split <;> rfl

end Element

end Code

section Values

/-- Whenever the one evaluation gives a value the other gives it too, and leaves the same tally. -/
def Refines {α : Type} (x y : Eval α) : Prop :=
  ∀ tally v tally', x.run tally = (.ok v, tally') → y.run tally = (.ok v, tally')

namespace Refines

variable {α β : Type} {x y : Eval α}

theorem refl (x : Eval α) : Refines x x := fun _ _ _ h => h

theorem failed (f : Failure) (y : Eval α) : Refines (failed f) y := nofun

theorem bind (h : Refines x y) {f g : α → Eval β} (hf : ∀ a, Refines (f a) (g a)) :
    Refines (x >>= f) (y >>= g) := by
  intro tally v tally' hrun
  obtain ⟨a, u, hx, hfa⟩ := run_bind_eq_ok.1 hrun
  exact run_bind_eq_ok.2 ⟨a, u, h tally a u hx, hf a u v tally' hfa⟩

/-- Where the other evaluation fails, so does the one. -/
theorem error (h : Refines x y) {tally tally' : Tally} {f : Failure}
    (hy : y.run tally = (.error f, tally')) :
    ∃ g tally'', x.run tally = (.error g, tally'') := by
  cases hx : x.run tally with
  | mk r tally'' =>
    cases r with
    | error g => exact ⟨g, tally'', rfl⟩
    | ok v =>
      rw [h tally v tally'' hx] at hy
      cases hy

end Refines

theorem signedArithmetic_unchecked {k : IntKind} {op : Operator} {checked : Bool} {a b n : Int}
    (h : signedArithmetic k op checked a b = .ok n) : signedArithmetic k op false a b = .ok n := by
  cases op <;> simp only [signedArithmetic, Bool.false_and, Bool.false_eq_true, if_false] at h ⊢
  case divide =>
    split at h
    · cases h
    · rename_i hb
      rw [if_neg hb]
      split at h
      · cases h
      · exact h
  case add | subtract | multiply =>
    split at h
    · cases h
    · exact h
  all_goals exact h

theorem unsignedArithmetic_unchecked {k : IntKind} {op : Operator} {checked : Bool} {a b n : Int}
    (h : unsignedArithmetic k op checked a b = .ok n) :
    unsignedArithmetic k op false a b = .ok n := by
  cases op <;> simp only [unsignedArithmetic, Bool.false_and, Bool.false_eq_true, if_false] at h ⊢
  case add | subtract | multiply =>
    split at h
    · cases h
    · exact h
  all_goals exact h

/-- A checked result is the result without a check. -/
theorem intArithmetic_unchecked {k : IntKind} {op : Operator} {checked : Bool} {a b n : Int}
    (h : intArithmetic k op checked a b = .ok n) : intArithmetic k op false a b = .ok n := by
  unfold intArithmetic at h ⊢
  split at h
  · rename_i hk
    rw [if_pos hk]
    exact unsignedArithmetic_unchecked h
  · rename_i hk
    rw [if_neg hk]
    exact signedArithmetic_unchecked h

theorem intNegation_unchecked {k : IntKind} {checked : Bool} {a n : Int}
    (h : intNegation k checked a = .ok n) :
    intNegation k false a = .ok n := by
  unfold intNegation at h ⊢
  split at h
  · cases h
  · exact h

theorem settle_refines (k : IntKind) {r r' : Except Failure Int} (h : ∀ n, r = .ok n → r' = .ok n) :
    Refines (settle k r) (settle k r') := by
  cases r with
  | error f => exact .failed f _
  | ok n =>
    rw [h n rfl]
    exact .refl _

theorem Conversion.unchecked_refines (host : Host) (v : Value) (c : Conversion) :
    Refines (c.apply host v) (c.unchecked.apply host v) := by
  cases c with
  | checked t =>
    simp only [apply, unchecked]
    split
    · split
      · exact .failed _ _
      · exact .refl _
    · exact .failed _ _
  | _ => exact .refl _

theorem Unary.unchecked_refines (host : Host) (v : Value) (op : Unary) :
    Refines (op.apply host v) (op.unchecked.apply host v) := by
  cases op with
  | negate t checked =>
    simp only [apply, unchecked]
    split
    · split
      · exact settle_refines _ fun n h => intNegation_unchecked h
      · exact .refl _
    all_goals exact .refl _
  | _ => exact .refl _

theorem Binary.unchecked_refines (host : Host) (a b : Value) (op : Binary) :
    Refines (op.apply host a b) (op.unchecked.apply host a b) := by
  cases op with
  | arithmetic op t checked =>
    simp only [apply, unchecked]
    split
    · split
      · exact settle_refines _ fun n h => intArithmetic_unchecked h
      · exact .refl _
    all_goals exact .refl _
  | _ => exact .refl _

variable {env : Environment}

theorem evalAll_refines {es : List Element} (h : ∀ e ∈ es, ∀ last,
    Refines (e.eval env last) (e.unchecked.eval env last))
    (last : Option Value) : Refines (Element.evalAll env last es)
    (Element.evalAll env last (es.map Element.unchecked)) := by
  induction es generalizing last with
  | nil => exact .refl _
  | cons e es ih =>
    simp only [List.map_cons, Element.evalAll]
    refine (h e List.mem_cons_self last).bind fun v => ?_
    exact (ih (fun x hx => h x (List.mem_cons_of_mem _ hx)) (some v)).bind fun vs => .refl _

theorem anyOf_refines {es : List Element} (h : ∀ e ∈ es, ∀ last,
    Refines (e.eval env last) (e.unchecked.eval env last))
    (v : Value) : Refines (Element.anyOf env v es)
    (Element.anyOf env v (es.map Element.unchecked)) := by
  induction es with
  | nil => exact .refl _
  | cons e es ih =>
    simp only [List.map_cons, Element.anyOf]
    refine (h e List.mem_cons_self (some v)).bind fun r => (Refines.refl _).bind fun b => ?_
    split
    · exact .refl _
    · exact ih fun x hx => h x (List.mem_cons_of_mem _ hx)

theorem condition_refines (c : Condition)
    (h : ∀ e ∈ c.operands, ∀ last, Refines (e.eval env last) (e.unchecked.eval env last))
    (last : Option Value) :
    Refines (c.eval env last) (c.unchecked.eval env last) := by
  match c with
  | .operand e =>
    simp only [Condition.unchecked, Condition.eval]
    exact h e (by simp [Condition.operands]) last
  | .join op left right =>
    simp only [Condition.unchecked, Condition.eval]
    refine (condition_refines left (fun e he => h e (by simp [Condition.operands, he])) last).bind
      fun a =>
      (Refines.refl _).bind fun b => ?_
    split
    · exact .refl _
    · exact condition_refines right (fun e he => h e (by simp [Condition.operands, he])) last

/-- Where an element has a value, it has the same value without tests for overflow. -/
theorem Element.unchecked_refines (env : Environment) (e : Element) (last : Option Value) :
    Refines (e.eval env last) (e.unchecked.eval env last) := by
  induction e using Element.induction generalizing last with
  | constant t v numeral => simp only [unchecked]; exact .refl _
  | convert name how t inner ih =>
    simp only [unchecked, eval]
    refine (ih last).bind fun v => ?_
    cases how with
    | none => exact .refl _
    | some c => exact c.unchecked_refines env.host v
  | unary op t operand ih =>
    simp only [unchecked, eval]
    exact (ih last).bind fun v => op.unchecked_refines env.host v
  | binary op t left right ihl ihr =>
    simp only [unchecked, eval]
    exact (ihl last).bind fun a => (ihr (some a)).bind fun b => op.unchecked_refines env.host a b
  | choose t condition whenTrue whenFalse ihc iht ihf =>
    simp only [unchecked, eval]
    refine (ihc last).bind fun v => (Refines.refl _).bind fun b => ?_
    split
    · exact iht last
    · exact ihf last
  | logic condition ih =>
    simp only [unchecked, eval]
    exact condition_refines condition ih last
  | duplicate t => simp only [unchecked]; exact .refl _
  | among operand tests ih iht =>
    simp only [unchecked, eval, uncheckedAll_eq]
    exact (ih last).bind fun v => (anyOf_refines iht v).bind fun found => .refl _
  | contains collection operand ihc ih =>
    simp only [unchecked, eval]
    exact (ihc last).bind fun c => (ih (some c)).bind fun v => .refl _
  | owner t => simp only [unchecked]; exact .refl _
  | read m t receiver ih =>
    simp only [unchecked, eval]
    exact (ih last).bind fun v => .refl _
  | call name fn spread t args ih =>
    simp only [unchecked, eval, uncheckedAll_eq]
    exact (evalAll_refines ih last).bind fun vs => .refl _
  | invoke name signature spread t receiver args ih iha =>
    simp only [unchecked, eval, uncheckedAll_eq]
    exact (ih last).bind fun v => (evalAll_refines iha (some v)).bind fun vs => .refl _
  | variable_ name t => simp only [unchecked]; exact .refl _
  | demand name t args ih =>
    simp only [unchecked, eval, uncheckedAll_eq]
    exact (evalAll_refines ih last).bind fun vs => .refl _
  | index t receiver position ihr ihp =>
    simp only [unchecked, eval]
    exact (ihr last).bind fun c => (ihp (some c)).bind fun i => .refl _

end Values

end Formulary
