import Formulary.Proofs.Element.Compilation

/-!
# Where evaluation goes on after an operand has decided

An operand of a tree of `and` and `or` is followed by the operator that holds it last on its left
side. Once it decides this operator, evaluation goes on at the nearest operator around it that is of
the other kind and holds it on the left: its right side is evaluated next. Neither the code
generator nor the stacks of operands and operators that it reads from left to right know the shape
of the tree. `seek?_after` and `resume?_after` relate both to the operators around a place, and
`decisions_continue` says that they find the same goal, that it is the right one, and that no stack
runs empty on the way.
-/

namespace Formulary.Condition

open Chain Machine

inductive Frame where
  | left (op : Logic) (right : Condition)
  | right (op : Logic) (left : Condition)

/-- The tree around a place, given the operators around it from the nearest to the farthest. -/
def around : List Frame → Condition → Condition
  | [], c => c
  | .left op right :: path, c => around path (.join op c right)
  | .right op left :: path, c => around path (.join op left c)

/-- The operators between the operands from left to right, each with its right side. -/
def nodes : Condition → List (Logic × Condition)
  | .operand _ => []
  | .join op left right => left.nodes ++ (op, right) :: right.nodes

def first : Condition → Element
  | .operand e => e
  | .join _ left _ => left.first

def last : Condition → Element
  | .operand e => e
  | .join _ _ right => right.last

/-- The operands to the left of a place. -/
def before : List Frame → List Element
  | [] => []
  | .left _ _ :: path => before path
  | .right _ left :: path => before path ++ left.operands

/-- The operands to the right of a place. -/
def after : List Frame → List Element
  | [] => []
  | .left _ right :: path => right.operands ++ after path
  | .right _ _ :: path => after path

/-- The operators to the right of a place. -/
def nodesAfter : List Frame → List (Logic × Condition)
  | [] => []
  | .left op right :: path => (op, right) :: (right.nodes ++ nodesAfter path)
  | .right _ _ :: path => nodesAfter path

section Places

variable {path : List Frame} {c : Condition}

theorem length_nodes (c : Condition) : c.nodes.length + 1 = c.count := by
  match c with
  | .operand e => rfl
  | .join op left right =>
    have hleft := left.length_nodes
    have hright := right.length_nodes
    simp only [nodes, count, List.length_append, List.length_cons]
    omega

theorem operators_eq (c : Condition) : c.operators = c.nodes.map fun x => (x.1, x.2.count) := by
  match c with
  | .operand e => rfl
  | .join op left right =>
    rw [operators, nodes, List.map_append, List.map_cons, left.operators_eq, right.operators_eq]

theorem operands_eq_cons (c : Condition) : c.operands = c.first :: c.operands.tail := by
  match c with
  | .operand e => rfl
  | .join op left right =>
    rw [operands, first, left.operands_eq_cons]
    rfl

theorem operands_eq_append (c : Condition) : ∃ front, front.length + 1 = c.count ∧
    c.operands = front ++ [c.last] := by
  match c with
  | .operand e => exact ⟨[], rfl, rfl⟩
  | .join op left right =>
    obtain ⟨front, hlength, hoperands⟩ := right.operands_eq_append
    refine ⟨left.operands ++ front, ?_, by rw [operands, hoperands, last, List.append_assoc]⟩
    rw [List.length_append, left.length_operands, count]
    omega

theorem operands_around (path : List Frame) (c : Condition) :
    (around path c).operands = before path ++ (c.operands ++ after path) := by
  induction path generalizing c with
  | nil => simp [around, before, after]
  | cons frame path ih =>
    cases frame <;> simp [around, before, after, ih, operands]

theorem nodes_around (path : List Frame) (c : Condition) :
    ∃ front, front.length = (before path).length ∧ (around path c).nodes = front ++
      (c.nodes ++ nodesAfter path) := by
  induction path generalizing c with
  | nil => exact ⟨[], rfl, by simp [around, nodesAfter]⟩
  | cons frame path ih =>
    cases frame with
    | left op right =>
      obtain ⟨front, hlength, hnodes⟩ := ih (.join op c right)
      exact ⟨front, hlength, by simp [around, nodesAfter, hnodes, nodes]⟩
    | right op left =>
      obtain ⟨front, hlength, hnodes⟩ := ih (.join op left c)
      refine ⟨front ++ (left.nodes ++ [(op, c)]), ?_, by simp [around, nodesAfter, hnodes, nodes]⟩
      have hleft := left.length_nodes
      simp only [before, List.length_append, List.length_singleton, hlength, left.length_operands]
      omega

theorem around_append (inner outer : List Frame) (c : Condition) :
    around (inner ++ outer) c = around outer (around inner c) := by
  induction inner generalizing c with
  | nil => rfl
  | cons frame inner ih => cases frame <;> exact ih _

theorem before_append (inner outer : List Frame) : before (inner ++ outer) = before outer ++
    before inner := by
  induction inner with
  | nil => simp [before]
  | cons frame inner ih => cases frame <;> simp [before, ih]

/-- An operator within a tree stands at its place within a tree around that. -/
theorem exists_around_frame {inner : Condition} {place : Nat} (frame : Frame)
    (h : ∃ path op left right, inner = around path (.join op left right) ∧
      place + 1 = (before path).length + left.count) :
    ∃ path op left right, around [frame] inner = around path (.join op left right) ∧
      place + (before [frame]).length + 1 = (before path).length + left.count := by
  obtain ⟨path, op, left, right, rfl, hplace⟩ := h
  refine ⟨path ++ [frame], op, left, right, (around_append path [frame] _).symm, ?_⟩
  rw [before_append, List.length_append]
  omega

/-- Every operand but the last is followed by an operator that holds it last on its left side. -/
theorem exists_around (tree : Condition) {place : Nat} (h : place + 1 < tree.count) :
    ∃ path op left right, tree = around path (.join op left right) ∧
      place + 1 = (before path).length + left.count := by
  match tree with
  | .operand e =>
    rw [count] at h
    omega
  | .join op left right =>
    rw [count] at h
    rcases Nat.lt_trichotomy (place + 1) left.count with hlt | heq | hgt
    · exact exists_around_frame (.left op right) (left.exists_around hlt)
    · exact ⟨[], op, left, right, rfl, by simp [before, heq]⟩
    · have hright : place - left.count + 1 < right.count := by omega
      have hwithin := exists_around_frame (.right op left) (right.exists_around hright)
      have hplace : place - left.count + (before [.right op left]).length = place := by
        simp only [before, List.nil_append, left.length_operands]
        omega
      rwa [hplace] at hwithin

end Places

/-- Operands and operators that are still to come, the next one on top, each operand with its
place. -/
structure Stacks where
  operands : List (Element × Nat)
  operators : List (Logic × Condition)

/-- The stacks with a tree on top, filled from right to left; its first operand has some place. -/
def fill : Condition → Nat → Stacks → Stacks
  | .operand e, place, s => { s with operands := (e, place) :: s.operands }
  | .join op left right, place, s =>
    let s := right.fill (place + left.count) s
    left.fill place { s with operators := (op, right) :: s.operators }

/-- The stacks without the operands and operators of a tree, as many as it has, or nothing if they
run empty. -/
def clear? : Condition → Stacks → Option Stacks
  | .operand _, s =>
    match s.operands with
    | [] => none
    | _ :: rest => some { s with operands := rest }
  | .join _ left right, s =>
    match s.operators with
    | [] => none
    | _ :: rest => (left.clear? { s with operators := rest }).bind right.clear?

theorem clear?_eq (c : Condition) {s : Stacks} (h : c.count ≤ s.operands.length)
    (h' : c.count ≤ s.operators.length + 1) :
    c.clear? s = some ⟨s.operands.drop c.count, s.operators.drop (c.count - 1)⟩ := by
  match c with
  | .operand e =>
    obtain ⟨x, rest, hs⟩ := List.exists_cons_of_length_pos (Nat.lt_of_lt_of_le Nat.one_pos h)
    simp [clear?, hs, count]
  | .join op left right =>
    have hleft := left.count_pos
    have hright := right.count_pos
    rw [count] at h h'
    obtain ⟨x, rest, hs⟩ := List.exists_cons_of_length_pos (show 0 < s.operators.length by omega)
    rw [hs, List.length_cons] at h'
    have hclear := left.clear?_eq (s := { s with operators := rest })
      (by simp only; omega) (by simp only; omega)
    have hclear' := right.clear?_eq (s := ⟨s.operands.drop left.count, rest.drop (left.count - 1)⟩)
      (by simp only [List.length_drop]; omega) (by simp only [List.length_drop]; omega)
    have hoperators : (x :: rest).drop (left.count + right.count - 1) =
        rest.drop (left.count - 1 + (right.count - 1)) := by
      rw [show left.count + right.count - 1 =
        left.count - 1 + (right.count - 1) + 1 by omega, List.drop_succ_cons]
    simp only [clear?, hs, hclear, hclear', Option.bind_some, List.drop_drop, count, hoperators]

theorem operators_clear?_le {c : Condition} {s s' : Stacks} (h : c.clear? s = some s') :
    s'.operators.length ≤ s.operators.length := by
  match c with
  | .operand e =>
    rw [clear?] at h
    split at h
    · cases h
    · cases h
      exact Nat.le_refl _
  | .join op left right =>
    rw [clear?] at h
    split at h
    · cases h
    · rename_i rest hs
      obtain ⟨s₁, hs₁, hs'⟩ := Option.bind_eq_some_iff.1 h
      have hle := operators_clear?_le hs₁
      have hle' := operators_clear?_le hs'
      rw [hs, List.length_cons]
      simp only at hle
      omega

/-- Where evaluation goes on after a decision of one kind: the operand on top once the right sides
of operators of this kind are taken off, at the first operator of the other kind, or nowhere if
there is none. Nothing if the stacks run empty. -/
def seek? (kind : Logic) (s : Stacks) : Option (Option (Element × Nat)) :=
  match _ : s.operators with
  | [] => some none
  | (other, right) :: rest =>
    if other = kind then
      match _ : right.clear? { s with operators := rest } with
      | some s => seek? kind s
      | none => none
    else s.operands.head?.map some
termination_by s.operators.length
decreasing_by
  rename_i hs _ hc
  have hle := operators_clear?_le hc
  rw [hs, List.length_cons]
  simp only at hle
  omega

/-- The goal of an operand that decides an operator with some right side, the stacks being those
behind both. -/
def target? (op : Logic) (right : Condition) (s : Stacks) : Option (Option (Element × Nat)) :=
  (right.clear? s).bind (seek? op)

/-- Where evaluation goes on after a decision of one kind, told by the operators around a place; the
first operand to the right of it has some place. -/
def resumption? (kind : Logic) : List Frame → Nat → Option (Element × Nat)
  | [], _ => none
  | .right _ _ :: path, place => resumption? kind path place
  | .left op right :: path, place =>
    if op = kind then resumption? kind path (place + right.count) else some (right.first, place)

section Goals

variable {kind : Logic} {path : List Frame}

theorem fill_eq (c : Condition) (place : Nat) (s : Stacks) :
    c.fill place s = ⟨c.operands.zipIdx place ++ s.operands, c.nodes ++ s.operators⟩ := by
  match c with
  | .operand e => rfl
  | .join op left right =>
    rw [fill, fill_eq right, fill_eq left]
    simp [operands, nodes, List.zipIdx_append, left.length_operands]

/-- Behind the right side of an operator stand the operands and operators to the right of it. -/
theorem clear?_after (right : Condition) (path : List Frame) (place : Nat) :
    right.clear? ⟨(right.operands ++ after path).zipIdx place, right.nodes ++ nodesAfter path⟩ =
      some ⟨(after path).zipIdx (place + right.count), nodesAfter path⟩ := by
  have hnodes := right.length_nodes
  have hoperands := right.length_operands
  rw [clear?_eq right (by simp [hoperands]) (by simp only [List.length_append]; omega),
    List.zipIdx_append]
  have hleft : ((right.operands.zipIdx place) ++
    (after path).zipIdx (place + right.operands.length)).drop right.count =
      (after path).zipIdx (place + right.operands.length) := by
    rw [List.drop_left' (by rw [List.length_zipIdx, hoperands])]
  have hright : (right.nodes ++ nodesAfter path).drop (right.count - 1) = nodesAfter path :=
    List.drop_left' (by omega)
  rw [hleft, hright, hoperands]

/-- The stacks lead to where the operators around a place do. -/
theorem seek?_after (kind : Logic) (path : List Frame) (place : Nat) :
    seek? kind ⟨(after path).zipIdx place, nodesAfter path⟩ =
      some (resumption? kind path place) := by
  induction path generalizing place with
  | nil =>
    rw [seek?]
    rfl
  | cons frame path ih =>
    cases frame with
    | right op left => exact ih place
    | left op right =>
      rw [seek?]
      simp only [nodesAfter, after, resumption?]
      split
      · rw [clear?_after]
        exact ih _
      · rw [right.operands_eq_cons]
        rfl

/-- The operands of a right side are skipped, and its operators do not matter. -/
theorem resume?_right (kind : Logic) (right : Condition) (later : List (Logic × Nat)) :
    resume? kind right.count (right.count - 1) (right.operators ++ later) =
      (resume? kind 0 0 later).map (right.count + ·) := by
  have hlength : right.count - 1 = right.operators.length := by
    rw [← right.length_operands, ← right.length_operators, Nat.add_sub_cancel]
  rw [hlength, resume?_hidden, ← resume?_add, Nat.add_zero]

/-- The number of operands that are skipped leads there as well. -/
theorem resume?_after (kind : Logic) (path : List Frame) (place : Nat) :
    (resume? kind 0 0 ((nodesAfter path).map fun x => (x.1, x.2.count))).map (place + ·) =
      (resumption? kind path place).map (·.2) := by
  induction path generalizing place with
  | nil => rfl
  | cons frame path ih =>
    cases frame with
    | right op left => exact ih place
    | left op right =>
      simp only [nodesAfter, List.map_cons, List.map_append, ← right.operators_eq, resume?,
        resumption?, beq_iff_eq]
      split
      · rw [Nat.zero_add, resume?_right, Option.map_map, ← ih (place + right.count)]
        simp only [Function.comp_def, Nat.add_assoc]
      · rfl

/-- The goal of an operand, by what evaluation goes on at. -/
def aim (op : Logic) : Option (Element × Nat) → Goal
  | some (_, place) => .operand place
  | none => .value op.decisive

theorem goal_after (op : Logic) (right : Condition) (path : List Frame) (place : Nat) :
    goal place op right.count (right.operators ++ (nodesAfter path).map fun x => (x.1, x.2.count)) =
      aim op (resumption? op path (place + 1 + right.count)) := by
  have hskip := resume?_after op path (place + 1 + right.count)
  rw [goal, skip?, resume?_right]
  cases hfound : resumption? op path (place + 1 + right.count) with
  | none =>
    rw [hfound] at hskip
    rw [Option.map_eq_none_iff.1 hskip]
    rfl
  | some x =>
    rw [hfound] at hskip
    obtain ⟨n, hn, hplace⟩ := Option.map_eq_some_iff.1 hskip
    rw [hn]
    simp only [aim, Option.map_some, ← hplace, Nat.add_assoc]

/-- The operand where evaluation goes on is to the right of the place. -/
theorem mem_of_resumption? {place : Nat} {x : Element × Nat}
    (h : resumption? kind path place = some x) :
    x ∈ (after path).zipIdx place := by
  induction path generalizing place with
  | nil => cases h
  | cons frame path ih =>
    cases frame with
    | right op left => exact ih h
    | left op right =>
      rw [resumption?] at h
      rw [after, List.zipIdx_append, right.length_operands, List.mem_append]
      split at h
      · exact .inr (ih h)
      · cases h
        rw [right.operands_eq_cons]
        exact .inl List.mem_cons_self

/-- Where evaluation goes on after one side of a tree has decided: at the leftmost operand of the
right side of the nearest operator around it that is of the other kind and holds it on the left, or
nowhere if there is none. -/
inductive Resumes (op : Logic) (c : Condition) : List Frame → Option (Element × Nat) → Prop
  | there (inner : List Frame) (kind : Logic) (side : Condition) (outer : List Frame)
      (same : ∀ k d, .left k d ∈ inner → k = op) (other : kind ≠ op) :
      Resumes op c (inner ++ Frame.left kind side :: outer)
        (some (side.first, (before outer).length + (around inner c).count))
  | nowhere (path : List Frame) (same : ∀ k d, .left k d ∈ path → k = op) : Resumes op c path none

/-- An operator that holds the tree on the right is passed by, and so is one of the same kind. -/
theorem Resumes.within {op : Logic} {c : Condition} {found : Option (Element × Nat)} (frame : Frame)
    (h : Resumes op (around [frame] c) path found) (same : ∀ k d, frame = .left k d → k = op) :
    Resumes op c (frame :: path) found := by
  have hmem : ∀ {inner : List Frame}, (∀ k d, .left k d ∈ inner → k = op) → ∀ k d,
      .left k d ∈ frame :: inner → k = op := by
    intro inner hinner k d hkd
    rcases List.mem_cons.1 hkd with hkd | hkd
    · exact same k d hkd.symm
    · exact hinner k d hkd
  cases h with
  | there inner kind side outer hinner other =>
    rw [← around_append]
    exact .there (frame :: inner) kind side outer (hmem hinner) other
  | nowhere path hpath => exact .nowhere _ (hmem hpath)

theorem resumes_resumption? (op : Logic) (c : Condition) (path : List Frame) :
    Resumes op c path (resumption? op path ((before path).length + c.count)) := by
  induction path generalizing c with
  | nil => exact .nowhere [] fun _ _ h => nomatch h
  | cons frame path ih =>
    have hwithin := ih (around [frame] c)
    cases frame with
    | right kind left =>
      have hplace : (before (.right kind left :: path)).length + c.count =
          (before path).length + (around [.right kind left] c).count := by
        rw [before, List.length_append, left.length_operands, Nat.add_assoc]
        rfl
      rw [hplace]
      exact hwithin.within _ fun _ _ h => nomatch h
    | left kind right =>
      rw [resumption?]
      split
      · rename_i hkind
        have hplace : (before (.left kind right :: path)).length + c.count + right.count =
            (before path).length + (around [.left kind right] c).count := Nat.add_assoc _ _ _
        rw [hplace]
        refine hwithin.within _ fun k d h => ?_
        cases h
        exact hkind
      · rename_i hkind
        exact .there [] kind right path (fun _ _ h => nomatch h) hkind

end Goals

section Popping

variable {path : List Frame} {op : Logic} {left right : Condition} {place : Nat}

/-- The stacks after some operators were popped, each with an operand. -/
def Stacks.drop (s : Stacks) (n : Nat) : Stacks := ⟨s.operands.drop n, s.operators.drop n⟩

theorem drop_nodes (h : place + 1 = (before path).length + left.count) :
    (around path (.join op left right)).nodes.drop place =
      (op, right) :: (right.nodes ++ nodesAfter path) := by
  obtain ⟨front, hlength, hnodes⟩ := nodes_around path (.join op left right)
  have hleft := left.length_nodes
  rw [hnodes, nodes, List.append_assoc, ← List.append_assoc,
    List.drop_left' (by rw [List.length_append]; omega)]
  rfl

/-- An operator is popped with the operand that it holds last on its left side. -/
theorem drop_fill (h : place + 1 = (before path).length + left.count) :
    ((around path (.join op left right)).fill 0 ⟨[], []⟩).drop place =
      ⟨(left.last, place) :: (right.operands ++ after path).zipIdx (place + 1),
        (op, right) :: (right.nodes ++ nodesAfter path)⟩ := by
  obtain ⟨front, hlength, hfront⟩ := left.operands_eq_append
  have hbefore : (before path ++ front).length = place := by
    rw [List.length_append]
    omega
  have hoperands : (around path (.join op left right)).operands =
      (before path ++ front) ++ left.last :: (right.operands ++ after path) := by
    simp [operands_around, operands, hfront]
  rw [fill_eq, Stacks.drop, List.append_nil, List.append_nil, drop_nodes h, hoperands,
    List.zipIdx_append, List.drop_left' (by rw [List.length_zipIdx, hbefore]), hbefore,
    List.zipIdx_cons, Nat.zero_add]

end Popping

/-- The chain of a tree before the operand at a place. -/
def chainAt (tree : Condition) (finish : Nat) (sheet : Sheet Instruction) (place : Nat) : Chain :=
  (tree.operands.take place).foldl (Chain.operand finish)
    { sheet := sheet, later := tree.operators }

theorem place_foldl_operand (finish : Nat) (c : Chain) (es : List Element) :
    (es.foldl (Chain.operand finish) c).place = c.place + es.length := by
  induction es generalizing c with
  | nil => rfl
  | cons e es ih =>
    rw [List.foldl_cons, ih, operand_place, List.length_cons, Nat.add_assoc, Nat.add_comm 1]

theorem later_foldl_operand (finish : Nat) (c : Chain) (es : List Element) :
    (es.foldl (Chain.operand finish) c).later = c.later.drop es.length := by
  induction es generalizing c with
  | nil => rfl
  | cons e es ih => rw [List.foldl_cons, ih, operand_later, List.length_cons, List.drop_tail]

/-- The jump behind an operand goes to the label of its goal. -/
theorem operand_jump (finish : Nat) (c : Chain) (e : Element) {op : Logic} {right : Nat}
    {later : List (Logic × Nat)} (h : c.later = (op, right) :: later) :
    ∃ l, (c.operand finish e).label? (goal c.place op right later) = some l ∧
      (c.operand finish e).sheet.lines.head? = some (.step (.jumpIf op.decisive l)) := by
  cases hlab : c.label? (goal c.place op right later) with
  | some l =>
    rw [operand_labelled finish c e h hlab]
    exact ⟨l, hlab, rfl⟩
  | none =>
    rw [operand_unlabelled finish c e h hlab, label?_cons, if_pos rfl]
    exact ⟨_, rfl, rfl⟩

/-- How evaluation goes on after the operand at a place of a tree has decided the operator that is
popped with it: the operator, with the operators around it, the stacks that are left behind both,
and the operand found on them. -/
structure Continues (tree : Condition) (place : Nat) (path : List Frame) (op : Logic)
    (left right : Condition)
    (rest : Stacks) (found : Option (Element × Nat)) : Prop where
  within : tree = around path (.join op left right)
  popped : (tree.fill 0 ⟨[], []⟩).drop place =
    ⟨(left.last, place) :: rest.operands, (op, right) :: rest.operators⟩
  resumes : Resumes op (.join op left right) path found
  /-- The stacks do not run empty on the way. -/
  reached : target? op right rest = some found
  kept : ∀ x ∈ found, x ∈ rest.operands
  /-- The jump behind the operand goes to the label of what is found. -/
  jumps : ∀ finish sheet, ∃ l,
    ((tree.chainAt finish sheet place).operand finish left.last).label? (aim op found) = some l ∧
    ((tree.chainAt finish sheet place).operand finish left.last).sheet.lines.head? =
      some (.step (.jumpIf op.decisive l))

/-- Every operand of a tree but the last is popped with the operator that holds it last on its left
side, and if it decides this operator, evaluation goes on where the operators around that lead. -/
theorem decisions_continue (tree : Condition) {place : Nat} (h : place + 1 < tree.count) :
    ∃ path op left right rest found, Continues tree place path op left right rest found := by
  obtain ⟨path, op, left, right, rfl, hplace⟩ := tree.exists_around h
  have hcount : place + 1 + right.count = (before path).length +
      (Condition.join op left right).count := by
    rw [hplace, Nat.add_assoc]
    rfl
  refine ⟨path, op, left, right, ⟨(right.operands ++ after path).zipIdx (place + 1), right.nodes ++
    nodesAfter path⟩,
    resumption? op path (place + 1 + right.count), rfl, drop_fill hplace, ?resumes, ?reached,
    fun x hx => ?kept, fun finish sheet => ?jumps⟩
  case resumes =>
    rw [hcount]
    exact resumes_resumption? op _ path
  case reached => rw [target?, clear?_after, Option.bind_some, seek?_after]
  case kept =>
    rw [List.zipIdx_append, right.length_operands, List.mem_append]
    exact .inr (mem_of_resumption? hx)
  case jumps =>
    have hlength : ((around path (.join op left right)).operands.take place).length = place := by
      rw [List.length_take, length_operands]
      omega
    have hat : ((around path (.join op left right)).chainAt finish sheet place).place = place := by
      rw [chainAt, place_foldl_operand, hlength, Nat.zero_add]
    have hlater : ((around path (.join op left right)).chainAt finish sheet place).later =
        (op, right.count) :: (right.operators ++ (nodesAfter path).map fun x =>
          (x.1, x.2.count)) := by
      rw [chainAt, later_foldl_operand, hlength, operators_eq, ← List.map_drop,
        drop_nodes hplace, List.map_cons, List.map_append, right.operators_eq]
    obtain ⟨l, hl, hjump⟩ := operand_jump finish _ left.last hlater
    rw [hat, goal_after] at hl
    exact ⟨l, hl, hjump⟩

/-- `(a or b) and c or d` -/
def alternating : Condition :=
  let operand (name : String) : Condition := .operand (.variable name .bool)
  .join .or (.join .and (.join .or (operand "a") (operand "b")) (operand "c")) (operand "d")

/-- Once `a` holds, evaluation goes on at `c`. -/
theorem decisions_continue_alternating :
    ∃ path op left right rest,
      Continues alternating 0 path op left right rest (some (.variable "c" .bool, 2)) := by
  obtain ⟨path, op, left, right, rest, found, h⟩ := decisions_continue alternating
    (show 0 + 1 < alternating.count by decide)
  have hpopped := h.popped
  have hreached := h.reached
  simp only [alternating, fill, count, Stacks.drop, List.drop_zero, Stacks.mk.injEq,
    List.cons.injEq, Prod.mk.injEq]
    at hpopped
  obtain ⟨⟨-, hoperands⟩, ⟨rfl, rfl⟩, hoperators⟩ := hpopped
  have hfound : found = some (.variable "c" .bool, 2) := by
    simpa [target?, clear?, seek?, ← hoperands, ← hoperators] using hreached.symm
  exact ⟨path, _, left, _, rest, hfound ▸ h⟩

end Formulary.Condition
