import Formulary.Element.Code
import Formulary.Proofs.Machine.Forward

/-!
# The lines of an element

Writing an element puts its lines on a sheet above the lines that are there, and depends on the
sheet only through the number of labels in use. `Element.body` are these lines in order, and the
equations below say what they are made of. The lines of an element are forward, and their labels are
those taken into use for them.
-/

namespace Formulary

open Machine Machine.Lines

def Condition.operands : Condition → List Element
  | .operand e => [e]
  | .join _ left right => left.operands ++ right.operands

/-- Induction over elements: the parts of an element are its operands, arguments and tests, and the
operands of its conditions. -/
@[elab_as_elim]
theorem Element.induction {P : Element → Prop} (constant : ∀ t v numeral, P (.constant t v numeral))
    (convert : ∀ name how t inner, P inner → P (.convert name how t inner))
    (unary : ∀ op t operand, P operand → P (.unary op t operand))
    (binary : ∀ op t left right, P left → P right → P (.binary op t left right))
    (choose : ∀ t condition whenTrue whenFalse,
      P condition → P whenTrue → P whenFalse → P (.choose t condition whenTrue whenFalse))
    (logic : ∀ condition, (∀ e ∈ condition.operands, P e) → P (.logic condition))
    (duplicate : ∀ t, P (.duplicate t))
    (among : ∀ operand tests, P operand → (∀ e ∈ tests, P e) → P (.among operand tests))
    (contains : ∀ collection operand, P collection → P operand → P (.contains collection operand))
    (owner : ∀ t, P (.owner t)) (read : ∀ m t receiver, P receiver → P (.read m t receiver))
    (call : ∀ name fn spread t args, (∀ e ∈ args, P e) → P (.call name fn spread t args))
    (invoke : ∀ name signature spread t receiver args,
      P receiver → (∀ e ∈ args, P e) → P (.invoke name signature spread t receiver args))
    (variable_ : ∀ name t, P (.variable name t))
    (demand : ∀ name t args, (∀ e ∈ args, P e) → P (.demand name t args))
    (index : ∀ t receiver position, P receiver → P position → P (.index t receiver position))
    (e : Element) : P e := by
  refine @Element.rec P (fun c => ∀ e ∈ c.operands, P e) (fun es => ∀ e ∈ es, P e) constant
    convert unary binary
    choose logic duplicate among contains owner read call invoke variable_ demand
      index ?_ ?_ ?_ ?_ e
  · intro e he x hx
    rw [Condition.operands, List.mem_singleton] at hx
    exact hx ▸ he
  · intro op left right hl hr x hx
    rw [Condition.operands, List.mem_append] at hx
    exact hx.elim (hl x) (hr x)
  · intro x hx
    cases hx
  · intro e es he hes x hx
    rcases List.mem_cons.1 hx with rfl | hx
    · exact he
    · exact hes x hx

namespace Machine.Sheet

/-- A sheet with lines written before its own. -/
def above (s : Sheet Instruction) (before : Lines Instruction) : Sheet Instruction :=
  { s with lines := s.lines ++ before }

@[simp] theorem over_labels (s : Sheet Instruction) (before : Lines Instruction) :
    (s.above before).labels = s.labels := rfl

@[simp] theorem step_above (s : Sheet Instruction) (before : Lines Instruction)
    (x : Step Nat Instruction) :
    (s.above before).step x = (s.step x).above before := rfl

@[simp] theorem mark_above (s : Sheet Instruction) (before : Lines Instruction) (l : Nat) :
    (s.above before).mark l = (s.mark l).above before := rfl

@[simp] theorem reserve_above (s : Sheet Instruction) (before : Lines Instruction) (n : Nat) :
    (s.above before).reserve n = (s.reserve n).above before := rfl

end Machine.Sheet

namespace Chain

def above (c : Chain) (before : Lines Instruction) : Chain :=
  { c with sheet := c.sheet.above before }

def operand (finish : Nat) (c : Chain) (e : Element) : Chain :=
  ({ c.arrive with sheet := e.write c.arrive.sheet } : Chain).leave finish

theorem arrive_above (c : Chain) (before : Lines Instruction) :
    (c.above before).arrive = c.arrive.above before := by
  have hl : (c.above before).label? (.operand (c.above before).place) =
    c.label? (.operand c.place) := rfl
  rw [arrive, arrive, hl]
  cases c.label? (.operand c.place) <;> rfl

theorem withLabel_above (c : Chain) (before : Lines Instruction) (g : Goal) :
    (c.above before).withLabel g = ((c.withLabel g).1, (c.withLabel g).2.above before) := by
  have hl : (c.above before).label? g = c.label? g := rfl
  rw [withLabel, withLabel, hl]
  cases c.label? g <;> rfl

theorem leave_above (finish : Nat) (c : Chain) (before : Lines Instruction) :
    (c.above before).leave finish = (c.leave finish).above before := by
  obtain ⟨sheet, place, later, labels⟩ := c
  cases later with
  | nil => rfl
  | cons x later =>
    obtain ⟨op, right⟩ := x
    have h := withLabel_above ⟨sheet, place, (op, right) :: later, labels⟩ before
      (goal place op right later)
    simp only [above] at h
    simp only [leave, above, h, Sheet.step_above]

theorem close_above (finish : Nat) (c : Chain) (before : Lines Instruction) :
    (c.above before).close finish = (c.close finish).above before := by
  have hl : ∀ g, (c.above before).label? g = c.label? g := fun _ => rfl
  have hs : (c.above before).sheet = c.sheet.above before := rfl
  simp only [close, hl, hs]
  cases c.label? (.value false) <;> cases c.label? (.value true) <;> rfl

end Chain

/-- A condition is written operand by operand. -/
theorem Condition.write_eq_foldl (finish : Nat) (condition : Condition) (c : Chain) :
    condition.write finish c = condition.operands.foldl (Chain.operand finish) c := by
  match condition with
  | .operand e =>
    simp only [Condition.write, Condition.operands, List.foldl_cons, List.foldl_nil, Chain.operand]
  | .join _ left right =>
    rw [Condition.write, write_eq_foldl finish left, write_eq_foldl finish right,
      Condition.operands, List.foldl_append]

namespace Element

attribute [local simp] write writeAll writeTests

section Over

variable {before : Lines Instruction} {es : List Element}

theorem writeAll_above (h : ∀ e ∈ es, ∀ s, e.write (s.above before) = (e.write s).above before)
    (s : Sheet Instruction) : writeAll es (s.above before) = (writeAll es s).above before := by
  induction es generalizing s with
  | nil => rfl
  | cons e es ih =>
    rw [writeAll, writeAll, h e List.mem_cons_self, ih fun x hx => h x (List.mem_cons_of_mem _ hx)]

theorem writeTests_above (h : ∀ e ∈ es, ∀ s, e.write (s.above before) = (e.write s).above before)
    (found : Nat)
    (s : Sheet Instruction) : writeTests found es (s.above before) =
    (writeTests found es s).above before := by
  induction es generalizing s with
  | nil => rfl
  | cons e es ih =>
    rw [writeTests, writeTests, h e List.mem_cons_self, Sheet.step_above,
      ih fun x hx => h x (List.mem_cons_of_mem _ hx)]

theorem foldl_operand_above (h : ∀ e ∈ es, ∀ s,
    e.write (s.above before) = (e.write s).above before) (finish : Nat)
    (c : Chain) :
    es.foldl (Chain.operand finish) (c.above before) =
      (es.foldl (Chain.operand finish) c).above before := by
  induction es generalizing c with
  | nil => rfl
  | cons e es ih =>
    have ho : (c.above before).operand finish e = (c.operand finish e).above before := by
      have hw := h e List.mem_cons_self c.arrive.sheet
      rw [Chain.operand, Chain.arrive_above, Chain.operand, ← Chain.leave_above]
      simp only [Chain.above, hw]
    rw [List.foldl_cons, List.foldl_cons, ho, ih fun x hx => h x (List.mem_cons_of_mem _ hx)]

end Over

/-- Writing an element keeps the lines that are there. -/
theorem write_above (before : Lines Instruction) (e : Element) (s : Sheet Instruction) :
    e.write (s.above before) = (e.write s).above before := by
  induction e using Element.induction generalizing s with
  | constant t v numeral => rfl
  | convert name how t inner ih => cases how <;> simp only [write, ih, Sheet.step_above]
  | unary op t operand ih => simp only [write, ih, Sheet.step_above]
  | binary op t left right ihl ihr => simp only [write, ihl, ihr, Sheet.step_above]
  | choose t condition whenTrue whenFalse ihc iht ihf =>
    simp only [write, Sheet.reserve_above, Sheet.over_labels, ihc, iht, ihf, Sheet.step_above,
      Sheet.mark_above]
  | logic condition ih =>
    simp only [write, Sheet.over_labels, Condition.write_eq_foldl]
    rw [← Chain.close_above, ← foldl_operand_above ih]
    rfl
  | duplicate t => rfl
  | among operand tests ih iht =>
    simp only [write, Sheet.reserve_above, Sheet.over_labels, ih, writeTests_above iht,
      Sheet.step_above, Sheet.mark_above]
  | contains collection operand ihc ih => simp only [write, ihc, ih, Sheet.step_above]
  | owner t => rfl
  | read m t receiver ih => simp only [write, ih, Sheet.step_above]
  | call name fn spread t args ih => simp only [write, writeAll_above ih, Sheet.step_above]
  | invoke name signature spread t receiver args ih iha =>
    simp only [write, ih, writeAll_above iha, Sheet.step_above]
  | variable_ name t => rfl
  | demand name t args ih => simp only [write, writeAll_above ih, Sheet.step_above]
  | index t receiver position ihr ihp => simp only [write, ihr, ihp, Sheet.step_above]

/-- The lines of an element when so many labels are in use. -/
def body (n : Nat) (e : Element) : Lines Instruction := (e.write ⟨[], n⟩).lines.reverse

def next (n : Nat) (e : Element) : Nat := (e.write ⟨[], n⟩).labels

def bodyAll : Nat → List Element → Lines Instruction
  | _, [] => []
  | n, e :: es => e.body n ++ bodyAll (e.next n) es

/-- The lines of the tests of a membership test, each followed by its jump. -/
def bodyTests (found : Nat) : Nat → List Element → Lines Instruction
  | _, [] => []
  | n, e :: es => e.body n ++ Line.step (.jumpIf true found) :: bodyTests found (e.next n) es

/-- The number of labels in use after several elements. -/
def nextAll : Nat → List Element → Nat
  | n, [] => n
  | n, e :: es => nextAll (e.next n) es

theorem write_mk (e : Element) (before : Lines Instruction) (n : Nat) :
    e.write ⟨before, n⟩ = ⟨(e.body n).reverse ++ before, e.next n⟩ := by
  have h := write_above before e ⟨[], n⟩
  simpa [Sheet.above, body, next] using h

theorem writeAll_mk (es : List Element) (before : Lines Instruction) (n : Nat) :
    writeAll es ⟨before, n⟩ = ⟨(bodyAll n es).reverse ++ before, nextAll n es⟩ := by
  induction es generalizing before n with
  | nil => rfl
  | cons e es ih =>
    rw [writeAll, write_mk, ih, bodyAll, nextAll, List.reverse_append, List.append_assoc]

theorem writeTests_mk (found : Nat) (es : List Element) (before : Lines Instruction) (n : Nat) :
    writeTests found es ⟨before, n⟩ = ⟨(bodyTests found n es).reverse ++ before, nextAll n es⟩ := by
  induction es generalizing before n with
  | nil => rfl
  | cons e es ih =>
    rw [writeTests, write_mk, Sheet.step, ih, bodyTests, nextAll]
    simp

section Equations

variable (n : Nat)

@[simp] theorem body_constant (t : Ty) (v : Value) (numeral : Option NumeralImage) :
    body n (.constant t v numeral) = [.step (.push v)] := rfl

@[simp] theorem body_convert (name : String) (how : Option Conversion) (t : Ty) (inner : Element) :
    body n (.convert name how t inner) =
      inner.body n ++
        (how.map fun c => Line.step (.act (Instruction.convert name t c))).toList := by
  cases how <;> simp [body, write, Sheet.step]

@[simp] theorem body_unary (op : Unary) (t : Ty) (operand : Element) :
    body n (.unary op t operand) =
      operand.body n ++ [Line.step (.act (Instruction.unary op operand.type))] := by
  simp [body, write, Sheet.step]

@[simp] theorem body_binary (op : Binary) (t : Ty) (left right : Element) :
    body n (.binary op t left right) =
      left.body n ++ (right.body (left.next n) ++
        [Line.step (.act (Instruction.binary op left.type))]) := by
  rw [body, write, write_mk, write_mk]
  simp [Sheet.step]

@[simp] theorem body_choose (t : Ty) (condition whenTrue whenFalse : Element) :
    body n (.choose t condition whenTrue whenFalse) =
      condition.body (n + 2) ++ Line.step (.jumpIf false n) ::
        (whenTrue.body (condition.next (n + 2)) ++ Line.step (.jump (n + 1)) :: .mark n ::
          (whenFalse.body (whenTrue.next (condition.next (n + 2))) ++ [Line.mark (n + 1)])) := by
  rw [body, write]
  simp only [Sheet.reserve, Sheet.step, Sheet.mark, write_mk]
  simp

@[simp] theorem body_duplicate (t : Ty) : body n (.duplicate t) = [.step (.act .duplicate)] := rfl

@[simp] theorem body_among (operand : Element) (tests : List Element) :
    body n (.among operand tests) =
      operand.body (n + 2) ++ (bodyTests n (operand.next (n + 2)) tests ++
        [Line.step .drop, .step (.push (.bool false)), .step (.jump (n + 1)), .mark n, .step .drop,
          .step (.push (.bool true)), .mark (n + 1)]) := by
  rw [body, write]
  simp only [Sheet.reserve, Sheet.step, Sheet.mark, write_mk, writeTests_mk]
  simp

@[simp] theorem body_contains (collection operand : Element) :
    body n (.contains collection operand) =
      collection.body n ++ (operand.body (collection.next n) ++
        [Line.step (.act (Instruction.contains collection.type))]) := by
  rw [body, write, write_mk, write_mk]
  simp [Sheet.step]

@[simp] theorem body_owner (t : Ty) : body n (.owner t) = [.step (.act .owner)] := rfl

@[simp] theorem body_read (m : Member) (t : Ty) (receiver : Element) :
    body n (.read m t receiver) = receiver.body n ++ [Line.step (.act (Instruction.read m))] := by
  simp [body, write, Sheet.step]

@[simp] theorem body_call (name : String) (fn : Function) (spread : Bool) (t : Ty)
    (args : List Element) :
    body n (.call name fn spread t args) =
      bodyAll n args ++ [Line.step (.act (Instruction.call name fn spread args.length))] := by
  rw [body, write, writeAll_mk]
  simp [Sheet.step]

@[simp] theorem body_invoke (name : String) (signature : Signature) (spread : Bool) (t : Ty)
    (receiver : Element)
    (args : List Element) :
    body n (.invoke name signature spread t receiver args) =
      receiver.body n ++ (bodyAll (receiver.next n) args ++
        [Line.step (.act (Instruction.invoke name signature spread args.length))]) := by
  rw [body, write, write_mk, writeAll_mk]
  simp [Sheet.step]

@[simp] theorem body_variable (name : String) (t : Ty) :
    body n (.variable name t) = [.step (.act (.variable name t))] := rfl

@[simp] theorem body_demand (name : String) (t : Ty) (args : List Element) :
    body n (.demand name t args) =
      bodyAll n args ++ [Line.step (.act (Instruction.demand name t args.length))] := by
  rw [body, write, writeAll_mk]
  simp [Sheet.step]

@[simp] theorem body_index (t : Ty) (receiver position : Element) :
    body n (.index t receiver position) =
      receiver.body n ++ (position.body (receiver.next n) ++
        [Line.step (.act (Instruction.index receiver.type))]) := by
  rw [body, write, write_mk, write_mk]
  simp [Sheet.step]

theorem next_convert (name : String) (how : Option Conversion) (t : Ty) (inner : Element) :
    next n (.convert name how t inner) = inner.next n := by
  cases how <;> rfl

theorem next_unary (op : Unary) (t : Ty) (operand : Element) :
    next n (.unary op t operand) = operand.next n := rfl

theorem next_read (m : Member) (t : Ty) (receiver : Element) :
    next n (.read m t receiver) = receiver.next n := rfl

theorem next_binary (op : Binary) (t : Ty) (left right : Element) :
    next n (.binary op t left right) = right.next (left.next n) := by
  rw [next, write, write_mk, write_mk, Sheet.step]

theorem next_choose (t : Ty) (condition whenTrue whenFalse : Element) :
    next n (.choose t condition whenTrue whenFalse) =
      whenFalse.next (whenTrue.next (condition.next (n + 2))) := by
  rw [next, write]
  simp only [Sheet.reserve, Sheet.step, Sheet.mark, write_mk]

theorem next_among (operand : Element) (tests : List Element) :
    next n (.among operand tests) = nextAll (operand.next (n + 2)) tests := by
  rw [next, write]
  simp only [Sheet.reserve, Sheet.step, Sheet.mark, write_mk, writeTests_mk]

theorem next_contains (collection operand : Element) :
    next n (.contains collection operand) = operand.next (collection.next n) := by
  rw [next, write, write_mk, write_mk, Sheet.step]

theorem next_call (name : String) (fn : Function) (spread : Bool) (t : Ty) (args : List Element) :
    next n (.call name fn spread t args) = nextAll n args := by
  rw [next, write, writeAll_mk, Sheet.step]

theorem next_invoke (name : String) (signature : Signature) (spread : Bool) (t : Ty)
    (receiver : Element) (args : List Element) :
    next n (.invoke name signature spread t receiver args) = nextAll (receiver.next n) args := by
  rw [next, write, write_mk, writeAll_mk, Sheet.step]

theorem next_demand (name : String) (t : Ty) (args : List Element) :
    next n (.demand name t args) = nextAll n args := by
  rw [next, write, writeAll_mk, Sheet.step]

theorem next_index (t : Ty) (receiver position : Element) :
    next n (.index t receiver position) = position.next (receiver.next n) := by
  rw [next, write, write_mk, write_mk, Sheet.step]

end Equations

end Element

end Formulary
