import Mathlib.Data.List.Forall2
import Formulary.Proofs.Element.Tidy

/-!
# Programs compute the values of their elements

The lines of an element, run in front of any other lines, leave the value of the element on the
stack for them, or fail as its evaluation fails. What a duplicate stands for is the value on top of
the stack. A tree of conditions is evaluated by its operands from left to right: `walk` follows the
jumps between them, and `walk_condition` says that it computes the tree.
-/

namespace Formulary

open Machine Machine.Lines

/-- Lines that, in front of any others, leave the value of an evaluation on the stack, or fail as it
fails. -/
def Leaves (perform : Instruction → Stack → Eval Stack) (stack : Stack) (b : Lines Instruction)
    (f : Eval Value) : Prop :=
  ∀ rest, exec perform (b ++ rest) stack = (do exec perform rest ((← f) :: stack))

theorem exec_jumpIf_truth (perform : Instruction → Stack → Eval Stack) (wanted : Bool) (l : Nat)
    (a : Lines Instruction) (v : Value) (stack : Stack) :
    exec perform (.step (.jumpIf wanted l) :: a) (v :: stack) =
      (do
        if (← truth v) == wanted then exec perform (after l a) stack
        else exec perform a stack) := by
  rw [exec_jumpIf]
  cases v <;> rfl

namespace Chain

/-- What the operands of a tree of conditions come to from some operand on: each decides or is
passed by, and one that decides leads to the operand where evaluation goes on, or is the result. -/
def walk : List (Eval Value) → List (Logic × Nat) → Eval Value
  | [], _ => breakdown
  | f :: _, [] => f
  | f :: fs, (op, right) :: later => do
    let v ← f
    let b ← truth v
    if b == op.decisive then
      match skip? op right later with
      | some m => walk (fs.drop m) (later.drop m)
      | none => pure (.bool b)
    else walk fs later
termination_by fs => fs.length
decreasing_by all_goals simp only [List.length_cons, List.length_drop]; omega

/-- How evaluation goes on after the value of an operand, or of several that make up one side of an
operator. -/
def proceed (v : Value) (fs : List (Eval Value)) : List (Logic × Nat) → Eval Value
  | [] => pure v
  | (op, right) :: later => do
    let b ← truth v
    if b == op.decisive then
      match skip? op right later with
      | some m => walk (fs.drop m) (later.drop m)
      | none => pure (.bool b)
    else walk fs later

theorem walk_cons (f : Eval Value) (fs : List (Eval Value)) (later : List (Logic × Nat)) :
    walk (f :: fs) later = (do proceed (← f) fs later) := by
  cases later with
  | nil => simp [walk, proceed]
  | cons x later =>
    obtain ⟨op, right⟩ := x
    simp only [walk, proceed]

/-- Operators within a right side that is skipped do not matter. -/
theorem resume?_hidden (kind : Logic) (skipped : Nat) (inside later : List (Logic × Nat)) :
    resume? kind skipped inside.length (inside ++ later) = resume? kind skipped 0 later := by
  induction inside with
  | nil => rfl
  | cons x inside ih => exact ih

/-- Operands skipped before are added to those skipped from here on. -/
theorem resume?_add (kind : Logic) (n skipped hidden : Nat) (later : List (Logic × Nat)) :
    resume? kind (n + skipped) hidden later = (resume? kind skipped hidden later).map (n + ·) := by
  induction later generalizing skipped hidden with
  | nil => rfl
  | cons x later ih =>
    obtain ⟨other, right⟩ := x
    cases hidden with
    | succ hidden => exact ih skipped hidden
    | zero =>
      rw [resume?, resume?]
      split
      · rw [Nat.add_assoc, ih]
      · rfl

theorem decisive_ne {op other : Logic} (h : (other == op) = false) :
    (op.decisive == other.decisive) = false := by
  cases op <;> cases other <;> first | rfl | cases h

/-- A right side that is skipped leads on as the value does that made it superfluous. -/
theorem proceed_skipped {op : Logic} {inside : List (Logic × Nat)} {side fs : List (Eval Value)}
    (later : List (Logic × Nat)) (hside : side.length = inside.length + 1) :
    (match skip? op side.length (inside ++ later) with
      | some m => walk ((side ++ fs).drop m) ((inside ++ later).drop m)
      | none => pure (.bool op.decisive)) = proceed (.bool op.decisive) fs later := by
  have hskip : skip? op side.length (inside ++ later) = resume? op side.length 0 later := by
    rw [skip?, hside, Nat.add_sub_cancel, resume?_hidden]
  rw [hskip]
  cases later with
  | nil => rfl
  | cons x later =>
    obtain ⟨other, right⟩ := x
    have hdrop : ∀ m, (inside ++ (other, right) :: later).drop (side.length + m) =
        later.drop m := by
      intro m
      rw [hside, show inside.length + 1 + m =
        inside.length + (m + 1) by omega, List.drop_length_add_append,
        List.drop_succ_cons]
    simp only [resume?, proceed, truth, pure_bind]
    by_cases ho : (other == op) = true
    · obtain rfl : other = op := by simpa using ho
      simp only [beq_self_eq_true, if_true]
      rw [resume?_add, ← skip?]
      cases skip? other right later with
      | none => rfl
      | some m => simp only [Option.map_some, hdrop, List.drop_length_add_append]
    · have ho : (other == op) = false := by simpa using ho
      simp only [ho, decisive_ne ho, Bool.false_eq_true, if_false]
      have h0 := hdrop 0
      simp only [Nat.add_zero, List.drop_zero] at h0
      rw [h0, List.drop_left]

/-- The operands of a condition, in front of others, come to its value and what follows from it. -/
theorem walk_append (env : Environment) (last : Option Value) (condition : Condition)
    (fs : List (Eval Value)) (later : List (Logic × Nat)) :
    walk (condition.operands.map (Element.eval env last) ++ fs) (condition.operators ++ later) =
      (do proceed (← condition.eval env last) fs later) := by
  match condition with
  | .operand e => simp [Condition.operands, Condition.operators, walk_cons, Condition.eval]
  | .join op left right =>
    have hside : (right.operands.map (Element.eval env last)).length =
        right.operators.length + 1 := by
      rw [List.length_map, right.length_operators]
    have hcount : right.count = (right.operands.map (Element.eval env last)).length := by
      rw [List.length_map, right.length_operands]
    rw [Condition.operands, List.map_append, List.append_assoc, Condition.operators,
      List.append_assoc, walk_append env last left, Condition.eval, bind_assoc]
    refine bind_congr fun a => ?_
    rw [List.cons_append, proceed, bind_assoc]
    refine bind_congr fun b => ?_
    by_cases hb : (b == op.decisive) = true
    · obtain rfl : b = op.decisive := by simpa using hb
      simp only [beq_self_eq_true, if_true, pure_bind]
      rw [hcount]
      exact proceed_skipped later hside
    · rw [if_neg hb, if_neg hb]
      exact walk_append env last right fs later

/-- The operands of a condition come to its value. -/
theorem walk_condition (env : Environment) (last : Option Value) (condition : Condition) :
    walk (condition.operands.map (Element.eval env last)) condition.operators =
      condition.eval env last := by
  have h := walk_append env last condition [] []
  simpa [proceed] using h

section Laid

variable {label : Goal → Option Nat} {finish : Nat} (perform : Instruction → Stack → Eval Stack)

theorem exec_entry (place : Nat) (rest : Lines Instruction) (stack : Stack) :
    exec perform (entry label place ++ rest) stack = exec perform rest stack := by
  rw [entry]
  cases label (.operand place) with
  | none => rfl
  | some l => exact exec_mark perform l rest stack

theorem laid_cons (label : Goal → Option Nat) (finish place : Nat) (b : Lines Instruction)
    (bodies : List (Lines Instruction)) (later : List (Logic × Nat)) :
    ∃ s, laid label finish place (b :: bodies) later =
      entry label place ++
        (b ++ Line.step s :: laid label finish (place + 1) bodies later.tail) := by
  cases later with
  | nil => exact ⟨_, rfl⟩
  | cons x later => exact ⟨_, rfl⟩

/-- A jump to an operand goes on with the lines from this operand on. -/
theorem exec_after_laid {bodies : List (Lines Instruction)} (h : Arranged label bodies)
    {l m place : Nat} (later : List (Logic × Nat)) (hl : label (.operand (place + m)) = some l)
    (hm : m < bodies.length) (tail : Lines Instruction) (stack : Stack) :
    exec perform (after l (laid label finish place bodies later ++ tail)) stack =
      exec perform (laid label finish (place + m) (bodies.drop m) (later.drop m) ++
        tail) stack := by
  induction m generalizing place bodies later with
  | zero =>
    cases bodies with
    | nil => cases hm
    | cons b bodies =>
      obtain ⟨s, hs⟩ := laid_cons label finish place b bodies later
      have hentry : entry label place = [.mark l] := by
        rw [Nat.add_zero] at hl
        rw [entry, hl]
        rfl
      simp only [List.drop_zero, Nat.add_zero, hs, hentry, List.cons_append, List.nil_append,
        after_mark_self, exec_mark]
  | succ m ih =>
    cases bodies with
    | nil => cases hm
    | cons b bodies =>
      obtain ⟨s, hs⟩ := laid_cons label finish place b bodies later
      have hplace : place + (m + 1) = place + 1 + m := by omega
      have hentry : l ∉ marks (entry label place) := by
        rw [marks_entry, Option.mem_toList]
        intro hp
        have := h.distinct _ _ l hl hp
        injection this
        omega
      have hbody : l ∉ marks b := h.apart b List.mem_cons_self _ l hl
      rw [hplace] at hl ⊢
      rw [hs, List.append_assoc, after_append_of_not_mem _ hentry, List.append_assoc,
        after_append_of_not_mem _ hbody, List.cons_append, after,
        ih h.tail later.tail hl (by simpa using hm), List.drop_succ_cons, List.drop_tail]

theorem Labelled.drop {place : Nat} {later : List (Logic × Nat)}
    (h : Labelled label place later) (m : Nat) :
    Labelled label (place + m) (later.drop m) := by
  induction m generalizing place later with
  | zero => exact h
  | succ m ih =>
    cases later with
    | nil => trivial
    | cons x later =>
      rw [List.drop_succ_cons, show place + (m + 1) = place + 1 + m by omega]
      exact ih h.2

theorem Arranged.drop {bodies : List (Lines Instruction)} (h : Arranged label bodies) (m : Nat) :
    Arranged label (bodies.drop m) where
  distinct := h.distinct
  apart c hc := h.apart c (List.mem_of_mem_drop hc)
  forward c hc := h.forward c (List.mem_of_mem_drop hc)
  disjoint := h.disjoint.drop

/-- The lines of operands come to what a walk over the operands comes to. -/
theorem exec_laid {stack : Stack} {bodies : List (Lines Instruction)} {fs : List (Eval Value)}
    {later : List (Logic × Nat)} {place : Nat} {tail : Lines Instruction} {k : Value → Eval Stack}
    (h : Arranged label bodies) (leaves : List.Forall₂ (Leaves perform stack) bodies fs)
    (labelled : Labelled label place later) (wide : ∀ x ∈ later, 1 ≤ x.2)
    (length : bodies.length = later.length + 1)
    (hfinish : ∀ v, exec perform (after finish tail) (v :: stack) = k v)
    (hvalue : ∀ b l, label (.value b) = some l → exec perform (after l tail) stack = k (.bool b)) :
    exec perform (laid label finish place bodies later ++ tail) stack =
      (do k (← walk fs later)) := by
  cases leaves with
  | nil => simp at length
  | @cons b f bodies fs hb leaves =>
    cases later with
    | nil =>
      obtain rfl : bodies = [] := List.eq_nil_of_length_eq_zero (by simpa using length)
      cases leaves
      simp only [laid, List.append_assoc, exec_entry, walk, List.cons_append, List.nil_append]
      rw [hb]
      exact bind_congr fun v => by rw [exec_jump, hfinish]
    | cons x later =>
      obtain ⟨op, right⟩ := x
      obtain ⟨⟨l, hl⟩, labelled⟩ := labelled
      have hwide : ∀ x ∈ later, 1 ≤ x.2 := fun x hx => wide x (List.mem_cons_of_mem _ hx)
      have hlength : bodies.length = later.length + 1 := by simpa using length
      rw [walk, bind_assoc]
      simp only [laid, List.append_assoc, exec_entry, List.cons_append, hl, Option.getD_some]
      rw [hb]
      refine bind_congr fun v => ?_
      rw [exec_jumpIf_truth, bind_assoc]
      refine bind_congr fun d => ?_
      by_cases hd : (d == op.decisive) = true
      · simp only [hd, if_true]
        cases hskip : skip? op right later with
        | none =>
          have hg : goal place op right later = .value op.decisive := by rw [goal, hskip]
          obtain rfl : d = op.decisive := by simpa using hd
          rw [hg] at hl
          have hoff : l ∉ marks (laid label finish (place + 1) bodies later) :=
            h.tail.goal_not_mem_laid hl fun j _ hj => by cases hj
          rw [after_append_of_not_mem _ hoff, hvalue _ l hl, pure_bind]
        | some m =>
          have hg : goal place op right later = .operand (place + 1 + m) := by rw [goal, hskip]
          rw [hg] at hl
          have hm : m < bodies.length := by
            have := goal_lt (wide _ List.mem_cons_self) hwide hg
            omega
          rw [exec_after_laid perform h.tail later hl hm]
          exact exec_laid (h.tail.drop m) (List.forall₂_drop m leaves) (labelled.drop m)
            (fun x hx => hwide x (List.mem_of_mem_drop hx))
              (by simp only [List.length_drop]; omega) hfinish hvalue
      · rw [if_neg hd, if_neg hd]
        exact exec_laid h.tail leaves labelled hwide hlength hfinish hvalue
termination_by bodies.length
decreasing_by
  · subst_vars
    simp only [List.length_drop, List.length_cons]
    omega
  · subst_vars
    simp only [List.length_cons]
    omega

/-- The end follows the values that are jumped to. -/
theorem after_finish (hfinish : ∀ g, label g ≠ some finish) (rest : Lines Instruction) :
    after finish (ending label finish ++ rest) = rest := by
  have hf := hfinish (.value false)
  have ht := hfinish (.value true)
  rw [ending]
  cases hlf : label (.value false) <;> cases hlt : label (.value true) <;> simp_all [after]

/-- A value that is jumped to is the result. -/
theorem exec_value (distinct : ∀ g h l, label g = some l → label h = some l → g = h)
    (hfinish : ∀ g, label g ≠ some finish) {b : Bool} {l : Nat} (hl : label (.value b) = some l)
    (rest : Lines Instruction) (stack : Stack) :
    exec perform (after l (ending label finish ++ rest)) stack =
      exec perform rest (.bool b :: stack) := by
  have hf := hfinish (.value false)
  have ht := hfinish (.value true)
  have hd := distinct (.value false) (.value true)
  have hd' := distinct (.value true) (.value false)
  rw [ending]
  cases b <;> cases hlf : label (.value false) <;> cases hlt : label (.value true) <;>
    simp_all [after]

/-- The operands of a condition leave their values on the stack. -/
theorem leaves_bodies {stack : Stack} {f : Element → Eval Value} (n : Nat) (c : Chain)
    {es : List Element} (h : ∀ e ∈ es, ∀ n, Leaves perform stack (e.body n) (f e)) :
    List.Forall₂ (Leaves perform stack) (bodies n c es) (es.map f) := by
  induction es generalizing c with
  | nil => exact .nil
  | cons e es ih =>
    exact .cons (h e List.mem_cons_self _) (ih (c.operand n e) fun x hx =>
      h x (List.mem_cons_of_mem _ hx))

end Laid

end Chain

namespace Element

section Leaves

variable {env : Environment} {es : List Element}

theorem evalAll_congr {α : Type} {last : Option Value} {f g : List Value → Eval α}
    (h : ∀ vs, vs.length = es.length → f vs = g vs) :
    (evalAll env last es >>= f) = (evalAll env last es >>= g) := by
  induction es generalizing last f g with
  | nil => simpa [evalAll] using h [] rfl
  | cons e es ih =>
    simp only [evalAll, bind_assoc, pure_bind]
    exact bind_congr fun v => ih fun vs hvs => h (v :: vs) (by simp [hvs])

/-- Elements one after another leave their values on the stack, the last one on top. -/
theorem exec_bodyAll (h : ∀ e ∈ es, ∀ n stack,
    Leaves (Instruction.perform env) stack (e.body n) (e.eval env stack.head?))
    (n : Nat) (rest : Lines Instruction) (stack : Stack) :
    exec (Instruction.perform env) (bodyAll n es ++ rest) stack =
      (do
        let vs ← evalAll env stack.head? es
        exec (Instruction.perform env) rest (vs.reverse ++ stack)) := by
  induction es generalizing n stack with
  | nil => simp [bodyAll, evalAll]
  | cons e es ih =>
    rw [bodyAll, List.append_assoc, h e List.mem_cons_self n stack]
    simp only [evalAll, bind_assoc, pure_bind]
    refine bind_congr fun v => ?_
    rw [ih (fun x hx => h x (List.mem_cons_of_mem _ hx)) (e.next n) (v :: stack)]
    simp

theorem popMany_append (vs : List Value) (stack : Stack) :
    Instruction.popMany vs.length (vs.reverse ++ stack) = pure (vs, stack) := by
  have htake : (vs.reverse ++ stack).take vs.length = vs.reverse := List.take_left' (by simp)
  have hdrop : (vs.reverse ++ stack).drop vs.length = stack := List.drop_left' (by simp)
  rw [Instruction.popMany, if_neg (by simp), htake, hdrop, List.reverse_reverse]

/-- Tests of the value on top of the stack go on at the mark of a value found, or after the last
one. -/
theorem exec_bodyTests (h : ∀ e ∈ es, ∀ n stack,
    Leaves (Instruction.perform env) stack (e.body n) (e.eval env stack.head?))
    {found n : Nat} (hfound : found < n) (tail : Lines Instruction) (v : Value) (stack : Stack) :
    exec (Instruction.perform env) (bodyTests found n es ++ tail) (v :: stack) =
      (do
        if ← anyOf env v es then exec (Instruction.perform env) (after found tail) (v :: stack)
        else exec (Instruction.perform env) tail (v :: stack)) := by
  induction es generalizing n with
  | nil => simp [bodyTests, anyOf]
  | cons e es ih =>
    have hgrow := (e.tidy n).grows
    have hoff : found ∉ marks (bodyTests found (e.next n) es) := by
      intro hmem
      have hin := (bodyTests_within (fun x _ => x.tidy) found (e.next n)).2 found hmem
      omega
    rw [bodyTests, List.append_assoc, h e List.mem_cons_self n (v :: stack), anyOf, bind_assoc]
    refine bind_congr fun r => ?_
    rw [List.cons_append, exec_jumpIf_truth, bind_assoc]
    refine bind_congr fun b => ?_
    cases b with
    | true => simp [after_append_of_not_mem _ hoff]
    | false => simpa using ih (fun x hx => h x (List.mem_cons_of_mem _ hx)) (by omega)

theorem leaves_choose {condition whenTrue whenFalse : Element} (t : Ty) (n : Nat) (stack : Stack)
    (hc : ∀ n stack, Leaves (Instruction.perform env) stack (condition.body n)
      (condition.eval env stack.head?))
    (ht : ∀ n stack, Leaves (Instruction.perform env) stack (whenTrue.body n)
      (whenTrue.eval env stack.head?))
    (hf : ∀ n stack, Leaves (Instruction.perform env) stack (whenFalse.body n)
      (whenFalse.eval env stack.head?)) :
    Leaves (Instruction.perform env) stack (body n (.choose t condition whenTrue whenFalse))
      (eval env stack.head? (.choose t condition whenTrue whenFalse)) := by
  intro rest
  have hcle := (condition.tidy (n + 2)).grows
  have htidy := whenTrue.tidy (condition.next (n + 2))
  have ftidy := whenFalse.tidy (whenTrue.next (condition.next (n + 2)))
  have htle := htidy.grows
  have hotherwise : n ∉ marks (whenTrue.body (condition.next (n + 2))) := by
    intro hmem
    have hin := htidy.within n hmem
    omega
  have hend : n + 1 ∉ marks (whenFalse.body (whenTrue.next (condition.next (n + 2)))) := by
    intro hmem
    have hin := ftidy.within (n + 1) hmem
    omega
  simp only [body_choose, List.append_assoc, List.cons_append, List.nil_append, eval, bind_assoc]
  rw [hc]
  refine bind_congr fun v => ?_
  rw [exec_jumpIf_truth]
  refine bind_congr fun b => ?_
  cases b with
  | true =>
    simp only [beq_iff_eq, Bool.true_eq_false, if_false, if_true]
    rw [ht]
    refine bind_congr fun w => ?_
    rw [exec_jump, after, if_neg (by omega), after_append_of_not_mem _ hend, after_mark_self]
  | false =>
    simp only [beq_self_eq_true, if_true, Bool.false_eq_true, if_false]
    rw [after_append_of_not_mem _ hotherwise, after, after_mark_self, hf]
    exact bind_congr fun w => by rw [exec_mark]

theorem leaves_among {operand : Element} {tests : List Element} (n : Nat) (stack : Stack)
    (ho : ∀ n stack, Leaves (Instruction.perform env) stack (operand.body n)
      (operand.eval env stack.head?))
    (ht : ∀ e ∈ tests, ∀ n stack, Leaves (Instruction.perform env) stack (e.body n)
      (e.eval env stack.head?)) :
    Leaves (Instruction.perform env) stack (body n (.among operand tests))
      (eval env stack.head? (.among operand tests)) := by
  intro rest
  have hole := (operand.tidy (n + 2)).grows
  simp only [body_among, List.append_assoc, List.cons_append, List.nil_append, eval,
    bind_assoc, pure_bind]
  rw [ho]
  refine bind_congr fun v => ?_
  rw [exec_bodyTests ht (by omega)]
  refine bind_congr fun found => ?_
  cases found with
  | true => simp [after]
  | false => simp [after]

theorem leaves_logic {condition : Condition} (n : Nat) (stack : Stack)
    (h : ∀ e ∈ condition.operands, ∀ n stack,
      Leaves (Instruction.perform env) stack (e.body n) (e.eval env stack.head?)) :
    Leaves (Instruction.perform env) stack (body n (.logic condition))
      (eval env stack.head? (.logic condition)) := by
  intro rest
  have tidy : ∀ e ∈ condition.operands, ∀ n, e.Tidy n := fun e _ => e.tidy
  have harr := Chain.arranged n tidy
  have hlength : (Chain.parts n condition).length = condition.operators.length + 1 := by
    rw [Chain.parts, Chain.length_bodies, condition.length_operators]
  have hnew : ∀ g, (Chain.ofCondition n condition).label? g ≠ some n :=
    fun g hg => Nat.lt_irrefl n (Chain.label_lt n tidy hg).1
  rw [body_logic n condition tidy, List.append_assoc, eval, ← Chain.walk_condition]
  exact Chain.exec_laid (Instruction.perform env) harr (Chain.leaves_bodies _ n _ fun e he n =>
    h e he n stack) (Chain.labelled n tidy)
    condition.operators_wide hlength (fun v => by rw [Chain.after_finish hnew])
    (fun b l hl => Chain.exec_value _ harr.distinct hnew hl rest stack)

/-- The lines of an element leave its value on the stack. -/
theorem leaves (env : Environment) (e : Element) (n : Nat) (stack : Stack) :
    Leaves (Instruction.perform env) stack (e.body n) (e.eval env stack.head?) := by
  induction e using Element.induction generalizing n stack with
  | constant t v numeral => intro rest; simp [eval]
  | convert name how t inner ih =>
    intro rest
    cases how with
    | none => simpa [eval] using ih n stack rest
    | some c =>
      simp only [body_convert, Option.map_some, Option.toList_some, List.append_assoc,
        eval, bind_assoc]
      rw [ih]
      exact bind_congr fun v => by simp [Instruction.perform]
  | unary op t operand ih =>
    intro rest
    simp only [body_unary, List.append_assoc, eval, bind_assoc]
    rw [ih]
    exact bind_congr fun v => by simp [Instruction.perform]
  | binary op t left right ihl ihr =>
    intro rest
    simp only [body_binary, List.append_assoc, eval, bind_assoc]
    rw [ihl]
    refine bind_congr fun a => ?_
    rw [ihr]
    exact bind_congr fun b => by simp [Instruction.perform]
  | choose t condition whenTrue whenFalse ihc iht ihf => exact leaves_choose t n stack ihc iht ihf
  | logic condition ih => exact leaves_logic n stack ih
  | duplicate t =>
    intro rest
    cases stack <;> simp [eval, Instruction.perform, breakdown]
  | among operand tests ih iht => exact leaves_among n stack ih iht
  | contains collection operand ihc ih =>
    intro rest
    simp only [body_contains, List.append_assoc, eval, bind_assoc]
    rw [ihc]
    refine bind_congr fun c => ?_
    rw [ih]
    exact bind_congr fun v => by simp [Instruction.perform]
  | owner t => intro rest; simp [eval, Instruction.perform]
  | read m t receiver ih =>
    intro rest
    simp only [body_read, List.append_assoc, eval, bind_assoc]
    rw [ih]
    exact bind_congr fun v => by simp [Instruction.perform]
  | call name fn spread t args ih =>
    intro rest
    simp only [body_call, List.append_assoc, eval, bind_assoc]
    rw [exec_bodyAll ih]
    refine evalAll_congr fun vs hvs => ?_
    simp [Instruction.perform, ← hvs, popMany_append]
  | invoke name signature spread t receiver args ih iha =>
    intro rest
    simp only [body_invoke, List.append_assoc, eval, bind_assoc]
    rw [ih]
    refine bind_congr fun v => ?_
    rw [exec_bodyAll iha]
    refine evalAll_congr fun vs hvs => ?_
    simp [Instruction.perform, ← hvs, popMany_append]
  | variable_ name t => intro rest; simp [eval, Instruction.perform]
  | demand name t args ih =>
    intro rest
    simp only [body_demand, List.append_assoc, eval, bind_assoc]
    rw [exec_bodyAll ih]
    refine evalAll_congr fun vs hvs => ?_
    simp [Instruction.perform, ← hvs, popMany_append]
  | index t receiver position ihr ihp =>
    intro rest
    simp only [body_index, List.append_assoc, eval, bind_assoc]
    rw [ihr]
    refine bind_congr fun c => ?_
    rw [ihp]
    exact bind_congr fun i => by simp [Instruction.perform]

end Leaves

/-- The program of an element: its lines assembled, unless they are too many. -/
theorem program_eq (limit : Nat) (e : Element) :
    e.program limit =
      if (assembled (e.body 0)).size ≤ limit then .ok (assembled (e.body 0))
      else .error (.tooLong limit) := by
  rw [program, Sheet.program]
  exact assembleBy_forward (e.tidy 0).forward id limit

theorem program_eq_ok {limit : Nat} {e : Element} {p : Program Instruction}
    (h : e.program limit = .ok p) :
    p = assembled (e.body 0) := by
  rw [program_eq] at h
  split at h
  · injection h with h
    exact h.symm
  · cases h

/-- The lines of an element, assembled, give its value or fail as its evaluation fails. -/
theorem runProgram_assembled (env : Environment) (e : Element) :
    runProgram env (assembled (e.body 0)) = e.eval env none := by
  have hleaves := leaves env e 0 [] []
  rw [List.append_nil] at hleaves
  rw [runProgram, run_assembled _ (e.tidy 0).forward, hleaves]
  simp [Program.result]

/-- The program of an element gives the value of the element, or fails as its evaluation fails. -/
theorem runProgram_program (env : Environment) (limit : Nat) (e : Element) (p : Program Instruction)
    (h : e.program limit = .ok p) : runProgram env p = e.eval env none := by
  rw [program_eq_ok h, runProgram_assembled]

/-- `if(x in (y, true) or x and y, x, false)`, with a jump across every kind of code that has
jumps. -/
def guarded : Element :=
  let x : Element := .variable "x" .bool
  let y : Element := .variable "y" .bool
  let yes : Element := .constant .bool (.bool true) none
  let test (item : Element) : Element := .binary (.sameObject false) .bool (.duplicate .bool) item
  .choose .bool
    (.logic (.join .or (.operand (.among x [test y, test yes]))
      (.join .and (.operand x) (.operand y)))) x
    (.constant .bool (.bool false) none)

theorem runProgram_guarded :
    ∃ p, guarded.program 64 = .ok p ∧ ∀ env, runProgram env p = guarded.eval env none :=
  ⟨_, rfl, fun env => runProgram_program env 64 guarded _ rfl⟩

end Element

end Formulary
