import Formulary.Machine.Assembly

/-!
# Forward assemblies

An assembly is forward when every label is marked once and every jump names a label that is marked
after it. Such an assembly fails only for want of room, and then exactly when it has more steps than
the limit. `exec` runs the lines themselves: a jump goes on with the lines after the mark it names,
so that no position is ever computed. `runFrom_assembled` says that the assembled program runs in
the same way.
-/

namespace Formulary.Machine

variable {ι : Type}

/-- The lines of an assembly whose labels are numbers. -/
abbrev Lines (ι : Type) := List (Line ι Nat)

namespace Lines

def marks : Lines ι → List Nat
  | [] => []
  | .mark l :: rest => l :: marks rest
  | .step _ :: rest => marks rest

def steps : Lines ι → List (Step Nat ι)
  | [] => []
  | .mark _ :: rest => steps rest
  | .step s :: rest => s :: steps rest

/-- The lines after the mark of a label. -/
def after (l : Nat) : Lines ι → Lines ι
  | [] => []
  | .mark m :: rest => if m = l then rest else after l rest
  | .step _ :: rest => after l rest

/-- The number of steps before the mark of a label. -/
def address (l : Nat) : Lines ι → Nat
  | [] => 0
  | .mark m :: rest => if m = l then 0 else address l rest
  | .step _ :: rest => address l rest + 1

/-- Every label is marked once, and every jump names a label that is marked later. -/
def Forward : Lines ι → Prop
  | [] => True
  | .mark l :: rest => l ∉ marks rest ∧ Forward rest
  | .step s :: rest => (∀ l, s.target? = some l → l ∈ marks rest) ∧ Forward rest

theorem forward_mark {l : Nat} {rest : Lines ι} : Forward (.mark l :: rest) ↔ l ∉ marks rest ∧
    Forward rest := Iff.rfl

theorem forward_step {s : Step Nat ι} {rest : Lines ι} :
    Forward (.step s :: rest) ↔ (∀ l, s.target? = some l → l ∈ marks rest) ∧ Forward rest := Iff.rfl

@[simp] theorem marks_append (a b : Lines ι) : marks (a ++ b) = marks a ++ marks b := by
  induction a with
  | nil => rfl
  | cons x a ih => cases x <;> simp [marks, ih]

@[simp] theorem steps_append (a b : Lines ι) : steps (a ++ b) = steps a ++ steps b := by
  induction a with
  | nil => rfl
  | cons x a ih => cases x <;> simp [steps, ih]

/-- The lines after a label that a part does not mark are those after it in the rest. -/
theorem after_append_of_not_mem {l : Nat} {a : Lines ι} (b : Lines ι) (h : l ∉ marks a) :
    after l (a ++ b) = after l b := by
  induction a with
  | nil => rfl
  | cons x a ih =>
    cases x with
    | mark m =>
      simp only [marks, List.mem_cons, not_or] at h
      rw [List.cons_append, after, if_neg (Ne.symm h.1), ih h.2]
    | step s => exact ih h

@[simp] theorem after_mark_self (l : Nat) (rest : Lines ι) : after l (.mark l :: rest) = rest := by
  simp only [after, if_true]

theorem length_after_le (l : Nat) (a : Lines ι) : (after l a).length ≤ a.length := by
  induction a with
  | nil => exact Nat.le_refl _
  | cons x a ih =>
    cases x with
    | mark m =>
      rw [after]
      split
      · exact Nat.le_succ _
      · exact Nat.le_succ_of_le ih
    | step s => exact Nat.le_succ_of_le ih

/-- A marked label divides the lines at its mark. -/
theorem eq_append_after {l : Nat} {a : Lines ι} (h : l ∈ marks a) :
    ∃ front, a = front ++ Line.mark l :: after l a ∧ l ∉ marks front := by
  induction a with
  | nil => cases h
  | cons x a ih =>
    cases x with
    | mark m =>
      by_cases hm : m = l
      · exact ⟨[], by simp [after, hm], by simp [marks]⟩
      · obtain ⟨front, ha, hf⟩ := ih ((List.mem_cons.1 h).resolve_left (Ne.symm hm))
        refine ⟨.mark m :: front, ?_, by simp [marks, Ne.symm hm, hf]⟩
        rw [after, if_neg hm, List.cons_append, ← ha]
    | step s =>
      obtain ⟨front, ha, hf⟩ := ih h
      refine ⟨.step s :: front, ?_, hf⟩
      rw [after, List.cons_append, ← ha]

/-- The address of a label is the number of steps before its first mark. -/
theorem address_append {l : Nat} {front : Lines ι} (rest : Lines ι) (h : l ∉ marks front) :
    address l (front ++ Line.mark l :: rest) = (steps front).length := by
  induction front with
  | nil => simp [address, steps]
  | cons x front ih =>
    cases x with
    | mark m =>
      simp only [marks, List.mem_cons, not_or] at h
      rw [List.cons_append, address, if_neg (Ne.symm h.1), ih h.2, steps]
    | step s => rw [List.cons_append, address, ih h, steps, List.length_cons]

/-- Forward parts whose labels differ are forward one after another. -/
theorem Forward.append {a b : Lines ι} (ha : Forward a) (hb : Forward b)
    (h : ∀ l ∈ marks a, l ∉ marks b) : Forward (a ++ b) := by
  induction a with
  | nil => exact hb
  | cons x a ih =>
    cases x with
    | mark m =>
      rw [List.cons_append, forward_mark, marks_append, List.mem_append, not_or]
      exact ⟨⟨ha.1, h m List.mem_cons_self⟩, ih ha.2 fun l hl => h l (List.mem_cons_of_mem _ hl)⟩
    | step s =>
      rw [List.cons_append, forward_step, marks_append]
      exact ⟨fun l hl => List.mem_append_left _ (ha.1 l hl), ih ha.2 h⟩

/-- What follows a part of forward lines is forward, and marks none of the part's labels. -/
theorem Forward.right {a b : Lines ι} (h : Forward (a ++ b)) : Forward b ∧ ∀ l ∈ marks a,
    l ∉ marks b := by
  induction a with
  | nil => exact ⟨h, fun l hl => nomatch hl⟩
  | cons x a ih =>
    cases x with
    | mark m =>
      rw [List.cons_append, forward_mark, marks_append, List.mem_append, not_or] at h
      obtain ⟨hb, hd⟩ := ih h.2
      refine ⟨hb, fun l hl => ?_⟩
      rcases List.mem_cons.1 hl with rfl | hl
      · exact h.1.2
      · exact hd l hl
    | step s => exact ih h.2

structure Block (n m : Nat) (a : Lines ι) : Prop where
  grows : n ≤ m
  forward : Forward a
  within : ∀ l ∈ marks a, n ≤ l ∧ l < m

namespace Block

theorem nil (n : Nat) : Block n n ([] : Lines ι) := ⟨Nat.le_refl n, trivial, fun _ h => nomatch h⟩

/-- A step that does not jump needs no label. -/
theorem step (n : Nat) {s : Step Nat ι} (hs : s.target? = none) : Block n n [.step s] where
  grows := Nat.le_refl n
  forward := by
    refine ⟨fun l hl => ?_, trivial⟩
    rw [hs] at hl
    cases hl
  within := fun _ h => nomatch h

theorem append {n m k : Nat} {a b : Lines ι} (ha : Block n m a) (hb : Block m k b) :
    Block n k (a ++ b) where
  grows := Nat.le_trans ha.grows hb.grows
  forward := ha.forward.append hb.forward fun l hl hm => by
    have hleft := ha.within l hl
    have hright := hb.within l hm
    omega
  within := fun l hl => by
    have hgrow := ha.grows
    have hgrow' := hb.grows
    rw [marks_append, List.mem_append] at hl
    rcases hl with hl | hl
    · have hin := ha.within l hl
      omega
    · have hin := hb.within l hl
      omega

/-- A step that does not jump behind a block. -/
theorem snoc {n m : Nat} {a : Lines ι} (ha : Block n m a) {s : Step Nat ι} (hs : s.target? = none) :
    Block n m (a ++ [Line.step s]) :=
  ha.append (step m hs)

end Block

/-- The positions of the marks of lines that come after some steps, the latest first. -/
def placed (count : Nat) : Lines ι → List (Nat × Nat)
  | [] => []
  | .mark l :: rest => placed count rest ++ [(l, count)]
  | .step _ :: rest => placed (count + 1) rest

/-- Lines that do not mark a label give it no position. -/
theorem find_placed_of_not_mem {l : Nat} {a : Lines ι} (h : l ∉ marks a) (count : Nat) :
    (placed count a).find? (·.1 == l) = none := by
  induction a generalizing count with
  | nil => rfl
  | cons x a ih =>
    cases x with
    | mark m =>
      simp only [marks, List.mem_cons, not_or] at h
      have hm : (m == l) = false := by simp [Ne.symm h.1]
      simp [placed, List.find?_append, ih h.2, hm]
    | step s => exact ih h (count + 1)

/-- The position of a marked label is its address. -/
theorem find_placed {l : Nat} {a : Lines ι} (ha : Forward a) (h : l ∈ marks a) (count : Nat) :
    (placed count a).find? (·.1 == l) = some (l, count + address l a) := by
  induction a generalizing count with
  | nil => cases h
  | cons x a ih =>
    cases x with
    | mark m =>
      by_cases hm : m = l
      · subst hm
        simp [placed, address, List.find?_append, find_placed_of_not_mem ha.1]
      · have hl : l ∈ marks a := (List.mem_cons.1 h).resolve_left (Ne.symm hm)
        simp [placed, address, List.find?_append, ih ha.2 hl, hm]
    | step s =>
      have hc : count + 1 + address l a = count + (address l a + 1) := by omega
      simp only [placed, address, ih ha.2 h (count + 1), hc]

section Draft

variable (limit : Nat) (number : Nat → Nat)

/-- Marking a label leaves the labels that are new in the lines after it new. -/
theorem position_add_mark {m : Nat} {a : Lines ι} {d : Draft ι Nat} (ha : Forward (.mark m :: a))
    (hn : ∀ l ∈ marks (.mark m :: a), d.position? l = none) :
    d.add limit number (.mark m) = { d with marks := (m, d.count) :: d.marks } ∧
      ∀ l ∈ marks a, (d.add limit number (.mark m)).position? l = none := by
  have hm : d.position? m = none := hn m List.mem_cons_self
  have hd : d.add limit number (.mark m) = { d with marks := (m, d.count) :: d.marks } := by
    simp [Draft.add, hm]
  refine ⟨hd, fun l hl => ?_⟩
  have hml : (m == l) = false := by
    rw [beq_eq_false_iff_ne]
    rintro rfl
    exact ha.1 hl
  have hp := hn l (List.mem_cons_of_mem _ hl)
  rw [hd]
  simpa [Draft.position?, hml] using hp

/-- Forward lines whose labels are new are all taken over while there is room. -/
theorem foldl_add {a : Lines ι} (ha : Forward a) (d : Draft ι Nat)
    (hn : ∀ l ∈ marks a, d.position? l = none) (room : d.count + (steps a).length ≤ limit) :
    a.foldl (Draft.add limit number) d =
      { steps := (steps a).reverse ++ d.steps
        count := d.count + (steps a).length
        marks := placed d.count a ++ d.marks
        fault := d.fault } := by
  induction a generalizing d with
  | nil => rfl
  | cons x a ih =>
    cases x with
    | mark m =>
      obtain ⟨hd, hn'⟩ := position_add_mark limit number ha hn
      rw [List.foldl_cons, ih ha.2 _ hn' (by rw [hd]; exact room), hd]
      simp [placed, steps]
    | step s =>
      simp only [steps, List.length_cons] at room
      have hr : ¬ limit ≤ d.count := by omega
      have hd : d.add limit number (.step s) =
          { d with steps := s :: d.steps, count := d.count + 1 } := by
        simp [Draft.add, hr]
      have hc : d.count + 1 + (steps a).length = d.count + ((steps a).length + 1) := by omega
      rw [List.foldl_cons, hd,
        ih ha.2 { d with steps := s :: d.steps, count := d.count + 1 } hn (hc ▸ room)]
      simp [placed, steps, hc]

/-- A fault stays. -/
theorem foldl_add_fault (a : Lines ι) (d : Draft ι Nat) {f : AssemblyFault} (h : d.fault = some f) :
    (a.foldl (Draft.add limit number) d).fault = some f := by
  induction a generalizing d with
  | nil => exact h
  | cons x a ih =>
    refine ih _ ?_
    cases x with
    | mark m => simp [Draft.add, h]
    | step s =>
      rw [Draft.add]
      split
      · simp [h]
      · exact h

/-- Forward lines without room end in the fault that there are too many of them. -/
theorem foldl_add_of_lt {a : Lines ι} (ha : Forward a) (d : Draft ι Nat)
    (hn : ∀ l ∈ marks a, d.position? l = none)
    (hf : d.fault = none) (hc : d.count ≤ limit) (full : limit < d.count + (steps a).length) :
    (a.foldl (Draft.add limit number) d).fault = some (.tooLong limit) := by
  induction a generalizing d with
  | nil =>
    simp only [steps, List.length_nil] at full
    omega
  | cons x a ih =>
    cases x with
    | mark m =>
      obtain ⟨hd, hn'⟩ := position_add_mark limit number ha hn
      refine ih ha.2 _ hn' ?_ ?_ ?_ <;> rw [hd] <;> assumption
    | step s =>
      simp only [steps, List.length_cons] at full
      rw [List.foldl_cons]
      by_cases hr : limit ≤ d.count
      · exact foldl_add_fault limit number a _ (by simp [Draft.add, hr, hf])
      · have hd : d.add limit number (.step s) =
          { d with steps := s :: d.steps, count := d.count + 1 } := by
          simp [Draft.add, hr]
        rw [hd]
        refine ih ha.2
          { d with steps := s :: d.steps, count := d.count + 1 } hn hf ?_ ?_ <;> simp only <;> omega

end Draft

/-- The program of forward lines: every jump goes to the address of its label. -/
def assembled (a : Lines ι) : Program ι :=
  ⟨((steps a).map fun s => s.retarget fun l => address l a).toArray⟩

@[simp] theorem assembled_size (a : Lines ι) : (assembled a).size = (steps a).length := by
  simp [assembled, Program.size]

/-- A jump in forward lines names a label that is marked. -/
theorem Forward.target_mem {a : Lines ι} (ha : Forward a) {s : Step Nat ι} {l : Nat}
    (hs : s ∈ steps a)
    (hl : s.target? = some l) : l ∈ marks a := by
  induction a with
  | nil => cases hs
  | cons x a ih =>
    cases x with
    | mark m => exact List.mem_cons_of_mem _ (ih ha.2 hs)
    | step r =>
      rcases List.mem_cons.1 hs with rfl | hs
      · exact ha.1 l hl
      · exact ih ha.2 hs

theorem retarget_congr {s : Step Nat ι} {f g : Nat → Nat}
    (h : ∀ l, s.target? = some l → f l = g l) :
    s.retarget f = s.retarget g := by
  cases s with
  | jump l => exact congrArg Step.jump (h l rfl)
  | jumpIf b l => exact congrArg (Step.jumpIf b) (h l rfl)
  | push v => rfl
  | drop => rfl
  | act i => rfl

end Lines

open Lines

/-- Forward lines assemble exactly when they have no more steps than the limit allows, and lack of
room is the only fault they can have. -/
theorem assembleBy_forward {a : Lines ι} (ha : Forward a) (number : Nat → Nat) (limit : Nat) :
    (assembleBy number limit a).mapError (·.1) =
      if (assembled a).size ≤ limit then .ok (assembled a) else .error (.tooLong limit) := by
  have hn : ∀ l ∈ marks a, ({} : Draft ι Nat).position? l = none := fun _ _ => rfl
  rw [assembled_size]
  split
  case isTrue room =>
    obtain ⟨d, hfold⟩ : ∃ d : Draft ι Nat, a.foldl (Draft.add limit number) {} = d := ⟨_, rfl⟩
    have hd : d =
        { steps := (steps a).reverse, count := (steps a).length, marks := placed 0 a } := by
      rw [← hfold, foldl_add limit number ha {} hn (by simpa using room)]
      simp
    have hp : ∀ l ∈ marks a, d.position? l = some (address l a) := by
      intro l hl
      simp [hd, Draft.position?, find_placed ha hl]
    have ht : ∀ s ∈ steps a, ∀ l, s.target? = some l → d.position? l = some (address l a) :=
      fun s hs l hl => hp l (ha.target_mem hs hl)
    have hu : d.unmarked? number = none := by
      rw [Draft.unmarked?, List.findSome?_eq_none_iff]
      rintro ⟨s, i⟩ hsi
      have hs : s ∈ steps a := by
        have := List.fst_mem_of_mem_zipIdx hsi
        simpa [hd] using this
      cases hl : s.target? with
      | none => simp [hl]
      | some l => simp [hl, ht s hs l hl]
    have hm : d.steps.reverse.map (fun s => s.retarget fun l => (d.position? l).getD 0) =
        (steps a).map fun s => s.retarget fun l => address l a := by
      have hr : d.steps.reverse = steps a := by simp [hd]
      rw [hr]
      refine List.map_congr_left fun s hs => retarget_congr fun l hl => ?_
      rw [ht s hs l hl, Option.getD_some]
    have hf : d.fault = none := by rw [hd]
    simp only [assembleBy, hfold, hf, hu, Option.or_none, assembled, hm]
    rfl
  case isFalse full =>
    have hf := foldl_add_of_lt limit number ha {} hn rfl (Nat.zero_le _)
      (by simp only [Nat.zero_add]; omega)
    simp only [assembleBy, hf, Option.some_or]
    rfl

/-- Runs lines without positions: what is left of them changes with every step, and a jump goes on
after the mark of its label. -/
def exec (perform : ι → Stack → Eval Stack) : Lines ι → Stack → Eval Stack
  | [], stack => pure stack
  | .mark _ :: rest, stack => exec perform rest stack
  | .step (.push v) :: rest, stack => exec perform rest (v :: stack)
  | .step .drop :: rest, stack =>
    match stack with
    | _ :: stack => exec perform rest stack
    | [] => breakdown
  | .step (.jump l) :: rest, stack => exec perform (after l rest) stack
  | .step (.jumpIf wanted l) :: rest, stack =>
    match stack with
    | .bool b :: stack =>
      if b == wanted then exec perform (after l rest) stack else exec perform rest stack
    | _ => breakdown
  | .step (.act i) :: rest, stack => do
    let stack ← perform i stack
    exec perform rest stack
termination_by a => a.length
decreasing_by
  all_goals simp only [List.length_cons]
  all_goals have := fun l => length_after_le l rest
  all_goals grind

section Exec

variable (perform : ι → Stack → Eval Stack)

@[simp] theorem exec_nil (stack : Stack) : exec perform [] stack = pure stack := by rw [exec]

@[simp] theorem exec_mark (l : Nat) (a : Lines ι) (stack : Stack) :
    exec perform (.mark l :: a) stack = exec perform a stack := by rw [exec]

@[simp] theorem exec_push (v : Value) (a : Lines ι) (stack : Stack) :
    exec perform (.step (.push v) :: a) stack = exec perform a (v :: stack) := by rw [exec]

@[simp] theorem exec_drop (v : Value) (a : Lines ι) (stack : Stack) :
    exec perform (.step .drop :: a) (v :: stack) = exec perform a stack := by rw [exec]

@[simp] theorem exec_jump (l : Nat) (a : Lines ι) (stack : Stack) :
    exec perform (.step (.jump l) :: a) stack = exec perform (after l a) stack := by rw [exec]

@[simp] theorem exec_act (i : ι) (a : Lines ι) (stack : Stack) :
    exec perform (.step (.act i) :: a) stack = (do exec perform a (← perform i stack)) := by
      rw [exec]

theorem exec_jumpIf (wanted : Bool) (l : Nat) (a : Lines ι) (stack : Stack) :
    exec perform (.step (.jumpIf wanted l) :: a) stack =
      match stack with
      | .bool b :: stack =>
        if b == wanted then exec perform (after l a) stack else exec perform a stack
      | _ => breakdown := by
  rw [exec.eq_def]

/-- The step of a program at the position of a line. -/
theorem assembled_step (front : Lines ι) (s : Step Nat ι) (rest : Lines ι) :
    (assembled (front ++ Line.step s :: rest)).steps[(steps front).length]? =
      some (s.retarget fun l => address l (front ++ Line.step s :: rest)) := by
  simp [assembled, steps]

/-- The address of a label that is marked in the rest of forward lines is the position of the lines
after it. -/
theorem Lines.Forward.address_eq {front rest : Lines ι} {l : Nat} (h : Forward (front ++ rest))
    (hl : l ∈ marks rest) :
    ∃ between, front ++ rest = between ++ after l rest ∧
      address l (front ++ rest) = (steps between).length ∧
      (steps between).length + (steps (after l rest)).length =
        (steps front).length + (steps rest).length ∧
      (steps front).length ≤ (steps between).length := by
  obtain ⟨middle, hr, hm⟩ := eq_append_after hl
  have hf : l ∉ marks front := fun hmem => h.right.2 l hmem hl
  have hfm : l ∉ marks (front ++ middle) := by
    rw [marks_append, List.mem_append, not_or]
    exact ⟨hf, hm⟩
  have hsplit : front ++ rest = (front ++ middle) ++ Line.mark l :: after l rest := by
    rw [List.append_assoc, ← hr]
  have hlen : (steps rest).length = (steps middle).length + (steps (after l rest)).length := by
    have := congrArg (fun a => (steps a).length) hr
    simpa [steps] using this
  refine ⟨front ++ middle ++ [Line.mark l], ?_, ?_, ?_, ?_⟩
  · rw [hsplit, List.append_assoc _ [_], List.singleton_append]
  · rw [hsplit, address_append _ hfm]
    simp [steps]
  · simp [steps]
    omega
  · simp [steps]

/-- A program goes on from the position of some lines with the step that stands there. -/
theorem runFrom_assembled_step (front : Lines ι) (s : Step Nat ι) (rest : Lines ι) (fuel : Nat)
    (stack : Stack) :
    (assembled (front ++ Line.step s :: rest)).runFrom perform (fuel + 1)
        (steps front).length stack =
      (do
        let (next, stack) ←
          (s.retarget fun l => address l (front ++ Line.step s :: rest)).run perform
            (steps front).length stack
        (assembled (front ++ Line.step s :: rest)).runFrom perform fuel next stack) := by
  rw [Program.runFrom, assembled_step]

/-- The program of forward lines, started at the position of some of them, runs as these lines
do. -/
theorem runFrom_assembled (front rest : Lines ι) (h : Forward (front ++ rest)) (fuel : Nat)
    (enough : (steps rest).length ≤ fuel) (stack : Stack) :
    (assembled (front ++ rest)).runFrom perform fuel (steps front).length stack =
      exec perform rest stack := by
  match rest with
  | [] =>
    have hsize : (assembled (front ++ [])).steps[(steps front).length]? = none := by
      simp [assembled]
    rw [Program.runFrom, hsize, exec_nil]
  | .mark l :: rest =>
    have hsplit : front ++ Line.mark l :: rest = (front ++ [Line.mark l]) ++ rest := by simp
    have hpos : (steps front).length = (steps (front ++ [Line.mark l])).length := by simp [steps]
    rw [exec_mark, hpos, hsplit]
    exact runFrom_assembled (front ++ [Line.mark l]) rest (hsplit ▸ h) fuel enough stack
  | .step s :: rest =>
    obtain ⟨fuel, rfl⟩ : ∃ n, fuel = n + 1 := by
      simp only [steps, List.length_cons] at enough
      exact ⟨fuel - 1, by omega⟩
    simp only [steps, List.length_cons, Nat.add_le_add_iff_right] at enough
    have hsplit : front ++ Line.step s :: rest = (front ++ [Line.step s]) ++ rest := by simp
    -- What the next step and the lines after a label come to, by induction.
    have hnext : ∀ st, (assembled (front ++ Line.step s :: rest)).runFrom perform fuel
      ((steps front).length + 1) st =
        exec perform rest st := by
      intro st
      have hpos : (steps front).length + 1 = (steps (front ++ [Line.step s])).length := by
        simp [steps]
      rw [hpos, hsplit]
      exact runFrom_assembled (front ++ [Line.step s]) rest (hsplit ▸ h) fuel enough st
    have hjump : ∀ l, s.target? = some l → ∀ st,
        (assembled (front ++ Line.step s :: rest)).runFrom perform fuel
          (address l (front ++ Line.step s :: rest)) st =
          exec perform (after l rest) st := by
      intro l hl st
      have hmem : l ∈ marks rest := (forward_step.1 h.right.1).1 l hl
      rw [hsplit] at h ⊢
      obtain ⟨between, hb, ha, hlen, hle⟩ := h.address_eq hmem
      have hshort := length_after_le l rest
      rw [ha, hb]
      exact runFrom_assembled between (after l rest) (hb ▸ h) fuel (by omega) st
    rw [runFrom_assembled_step]
    cases s with
    | push v => simpa [Step.retarget, Step.run] using hnext (v :: stack)
    | drop =>
      cases stack with
      | nil => simp [Step.retarget, Step.run, exec, breakdown]
      | cons v stack => simpa [Step.retarget, Step.run] using hnext stack
    | jump l => simpa [Step.retarget, Step.run] using hjump l rfl stack
    | jumpIf wanted l =>
      simp only [exec_jumpIf, Step.retarget, Step.run]
      cases stack with
      | nil => rfl
      | cons v stack =>
        cases v with
        | bool b =>
          by_cases hb : (b == wanted) = true
          · simpa [hb] using hjump l rfl stack
          · simpa [hb] using hnext stack
        | _ => rfl
    | act i => simp [Step.retarget, Step.run, hnext]
termination_by rest.length

/-- The program of forward lines runs as the lines do. -/
theorem run_assembled {a : Lines ι} (h : Forward a) :
    (assembled a).run perform (assembled a).size = (do Program.result (← exec perform a [])) := by
  have := runFrom_assembled perform [] a h (assembled a).size (by simp) []
  rw [Program.run]
  simpa [steps] using congrArg (· >>= Program.result) this

end Exec

end Formulary.Machine
