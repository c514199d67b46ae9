import Mathlib.Logic.Relation
import Formulary.Proofs.Element.Compilation

/-!
# Elements within elements

What an element is made of, at any depth, and what this says about its program: every instruction of
a program is the one that some element within the compiled one adds behind its operands.
-/

namespace Formulary

open Machine Machine.Lines Relation

namespace Element

def children : Element → List Element
  | .constant .. | .duplicate _ | .owner _ | .variable .. => []
  | .convert _ _ _ x | .unary _ _ x | .read _ _ x => [x]
  | .binary _ _ x y | .contains x y | .index _ x y => [x, y]
  | .choose _ condition whenTrue whenFalse => [condition, whenTrue, whenFalse]
  | .logic condition => condition.operands
  | .among operand tests => operand :: tests
  | .call _ _ _ _ args | .demand _ _ args => args
  | .invoke _ _ _ _ receiver args => receiver :: args

/-- Induction over elements, given what they are made of. -/
@[elab_as_elim]
theorem children_induction {P : Element → Prop} (h : ∀ e : Element, (∀ x ∈ e.children, P x) → P e)
    (e : Element) : P e := by
  induction e using Element.induction with
  | constant | duplicate | owner | variable_ => exact h _ nofun
  | convert _ _ _ _ ih | unary _ _ _ ih | read _ _ _ ih =>
    exact h _ (List.forall_mem_singleton.2 ih)
  | binary _ _ _ _ ihx ihy | contains _ _ ihx ihy | index _ _ _ ihx ihy =>
    exact h _ (List.forall_mem_cons.2 ⟨ihx, List.forall_mem_singleton.2 ihy⟩)
  | choose _ _ _ _ ihc iht ihf =>
    exact h _ (List.forall_mem_cons.2 ⟨ihc, List.forall_mem_cons.2
      ⟨iht, List.forall_mem_singleton.2 ihf⟩⟩)
  | logic _ ih | call _ _ _ _ _ ih | demand _ _ _ ih => exact h _ ih
  | among _ _ ih iht => exact h _ (List.forall_mem_cons.2 ⟨ih, iht⟩)
  | invoke _ _ _ _ _ _ ih iha => exact h _ (List.forall_mem_cons.2 ⟨ih, iha⟩)

/-- An element stands anywhere within another, or is the same. -/
def Within (x e : Element) : Prop := ReflTransGen (fun x e : Element => x ∈ e.children) x e

def All (P : Element → Prop) (e : Element) : Prop := ∀ x, x.Within e → P x

variable {P Q : Element → Prop} {e : Element}

theorem all_iff : e.All P ↔ P e ∧ ∀ x ∈ e.children, x.All P := by
  constructor
  · intro h
    exact ⟨h e .refl, fun x hx y hy => h y (hy.tail hx)⟩
  · rintro ⟨he, hchildren⟩ x hx
    rcases ReflTransGen.cases_tail hx with rfl | ⟨y, hxy, hy⟩
    · exact he
    · exact hchildren y hy x hxy

theorem All.self (h : e.All P) : P e := (all_iff.1 h).1

theorem All.child (h : e.All P) {x : Element} (hx : x ∈ e.children) : x.All P :=
  (all_iff.1 h).2 x hx

def act? : Element → Option Instruction
  | .constant .. | .choose .. | .logic _ | .among .. => none
  | .convert name how t _ => how.map (.convert name t)
  | .unary op _ x => some (.unary op x.type)
  | .binary op _ x _ => some (.binary op x.type)
  | .duplicate _ => some .duplicate
  | .contains x _ => some (.contains x.type)
  | .owner _ => some .owner
  | .read m _ _ => some (.read m)
  | .call name fn spread _ args => some (.call name fn spread args.length)
  | .invoke name signature spread _ _ args => some (.invoke name signature spread args.length)
  | .variable name t => some (.variable name t)
  | .demand name t args => some (.demand name t args.length)
  | .index _ x _ => some (.index x.type)

def Acts (P : Instruction → Prop) (e : Element) : Prop := ∀ i, e.act? = some i → P i

end Element

section Acts

variable {P : Instruction → Prop}

def Machine.Sheet.Acts (P : Instruction → Prop) (s : Sheet Instruction) : Prop :=
  ∀ i, .step (.act i) ∈ s.lines → P i

namespace Machine.Sheet

variable (s : Sheet Instruction)

theorem acts_act (i : Instruction) : (s.step (.act i)).Acts P ↔ P i ∧ s.Acts P := by
  simp [Acts, step]

@[simp] theorem acts_push (v : Value) : (s.step (.push v)).Acts P ↔ s.Acts P := by simp [Acts, step]

@[simp] theorem acts_drop : (s.step .drop).Acts P ↔ s.Acts P := by simp [Acts, step]

@[simp] theorem acts_jump (l : Nat) : (s.step (.jump l)).Acts P ↔ s.Acts P := by simp [Acts, step]

@[simp] theorem acts_jumpIf (wanted : Bool) (l : Nat) :
    (s.step (.jumpIf wanted l)).Acts P ↔ s.Acts P := by
  simp [Acts, step]

@[simp] theorem acts_mark (l : Nat) : (s.mark l).Acts P ↔ s.Acts P := by simp [Acts, mark]

@[simp] theorem acts_reserve (n : Nat) : (s.reserve n).Acts P ↔ s.Acts P := Iff.rfl

end Machine.Sheet

namespace Chain

variable (finish : Nat) (c : Chain)

@[simp] theorem acts_arrive : c.arrive.sheet.Acts P ↔ c.sheet.Acts P := by
  unfold arrive
  split <;> simp

@[simp] theorem acts_leave : (c.leave finish).sheet.Acts P ↔ c.sheet.Acts P := by
  unfold leave
  split
  · simp
  · rename_i op right later _
    cases hl : c.label? (goal c.place op right later) <;> simp [withLabel, hl]

@[simp] theorem acts_close : (c.close finish).Acts P ↔ c.sheet.Acts P := by
  unfold close
  cases c.label? (.value false) <;> cases c.label? (.value true) <;> simp

end Chain

namespace Element

variable {es : List Element}

theorem acts_writeAll (h : ∀ e ∈ es, ∀ s : Sheet Instruction, s.Acts P → (e.write s).Acts P)
    {s : Sheet Instruction}
    (hs : s.Acts P) : (writeAll es s).Acts P := by
  induction es generalizing s with
  | nil => exact hs
  | cons e es ih =>
    exact ih (fun x hx => h x (List.mem_cons_of_mem _ hx)) (h e List.mem_cons_self s hs)

theorem acts_writeTests (h : ∀ e ∈ es, ∀ s : Sheet Instruction, s.Acts P →
    (e.write s).Acts P) (found : Nat)
    {s : Sheet Instruction} (hs : s.Acts P) : (writeTests found es s).Acts P := by
  induction es generalizing s with
  | nil => exact hs
  | cons e es ih =>
    refine ih (fun x hx => h x (List.mem_cons_of_mem _ hx)) ?_
    rw [Sheet.acts_jumpIf]
    exact h e List.mem_cons_self s hs

theorem acts_foldl_operand (h : ∀ e ∈ es, ∀ s : Sheet Instruction, s.Acts P →
    (e.write s).Acts P) (finish : Nat)
    {c : Chain} (hc : c.sheet.Acts P) : (es.foldl (Chain.operand finish) c).sheet.Acts P := by
  induction es generalizing c with
  | nil => exact hc
  | cons e es ih =>
    refine ih (fun x hx => h x (List.mem_cons_of_mem _ hx)) ?_
    rw [Chain.operand, Chain.acts_leave]
    exact h e List.mem_cons_self _ ((Chain.acts_arrive c).2 hc)

/-- An element writes what it is made of, and then the instruction that it adds. -/
theorem acts_write_of_children {e : Element} (hself : e.Acts P)
    (hchildren : ∀ x ∈ e.children, ∀ s : Sheet Instruction, s.Acts P → (x.write s).Acts P)
    {s : Sheet Instruction}
    (hs : s.Acts P) : (e.write s).Acts P := by
  have hacts : ∀ {i : Instruction} {s : Sheet Instruction}, e.act? = some i → s.Acts P →
      (s.step (.act i)).Acts P :=
    fun hi hs => (Sheet.acts_act _ _).2 ⟨hself _ hi, hs⟩
  cases e with
  | constant t v numeral => rwa [write, Sheet.acts_push]
  | convert name how t x =>
    have hx := hchildren x (by simp [children]) s hs
    cases how with
    | none => exact hx
    | some c => exact hacts rfl hx
  | unary op t x => exact hacts rfl (hchildren x (by simp [children]) s hs)
  | binary op t x y =>
    exact hacts rfl (hchildren y (by simp [children]) _ (hchildren x (by simp [children]) s hs))
  | choose t condition whenTrue whenFalse =>
    simp only [write, Sheet.acts_mark]
    refine hchildren whenFalse (by simp [children]) _ ?_
    rw [Sheet.acts_mark, Sheet.acts_jump]
    refine hchildren whenTrue (by simp [children]) _ ?_
    rw [Sheet.acts_jumpIf]
    exact hchildren condition (by simp [children]) _ hs
  | logic condition =>
    simp only [write, Chain.acts_close, Condition.write_eq_foldl]
    exact acts_foldl_operand hchildren _ hs
  | duplicate t => exact hacts rfl hs
  | among operand tests =>
    simp only [write, Sheet.acts_mark, Sheet.acts_push, Sheet.acts_drop, Sheet.acts_jump]
    refine acts_writeTests (fun x hx => hchildren x (List.mem_cons_of_mem _ hx)) _ ?_
    exact hchildren operand List.mem_cons_self _ hs
  | contains x y =>
    exact hacts rfl (hchildren y (by simp [children]) _ (hchildren x (by simp [children]) s hs))
  | owner t => exact hacts rfl hs
  | read m t x => exact hacts rfl (hchildren x (by simp [children]) s hs)
  | call name fn spread t args => exact hacts rfl (acts_writeAll hchildren hs)
  | invoke name signature spread t receiver args =>
    exact hacts rfl (acts_writeAll (fun x hx => hchildren x (List.mem_cons_of_mem _ hx))
      (hchildren receiver List.mem_cons_self s hs))
  | «variable» name t => exact hacts rfl hs
  | demand name t args => exact hacts rfl (acts_writeAll hchildren hs)
  | index t x y =>
    exact hacts rfl (hchildren y (by simp [children]) _ (hchildren x (by simp [children]) s hs))

theorem acts_write (e : Element) (h : e.All (Acts P)) {s : Sheet Instruction} (hs : s.Acts P) :
    (e.write s).Acts P := by
  induction e using children_induction generalizing s with
  | h e ih => exact acts_write_of_children h.self (fun x hx s hs => ih x hx (h.child hx) hs) hs

end Element

end Acts

theorem Machine.Lines.mem_of_mem_steps {ι : Type} {a : Lines ι} {x : Step Nat ι} (h : x ∈ steps a) :
    .step x ∈ a := by
  induction a with
  | nil => cases h
  | cons line a ih =>
    cases line with
    | mark l => exact List.mem_cons_of_mem _ (ih h)
    | step y =>
      rcases List.mem_cons.1 h with rfl | h
      · exact List.mem_cons_self
      · exact List.mem_cons_of_mem _ (ih h)

/-- Every instruction of a program is added by an element within the compiled one. -/
theorem Element.exists_of_act {limit : Nat} {e : Element} {p : Program Instruction}
    (h : e.program limit = .ok p)
    {i : Instruction} (hi : .act i ∈ p.steps) : ∃ x : Element, x.Within e ∧ x.act? = some i := by
  have hwritten : (e.write {}).Acts fun i => ∃ x : Element, x.Within e ∧ x.act? = some i :=
    acts_write e (fun x hx i hi => ⟨x, hx, hi⟩) fun _ h => nomatch h
  refine hwritten i ?_
  rw [program_eq_ok h, assembled] at hi
  obtain ⟨step, hstep, heq⟩ := List.mem_map.1 (List.mem_toArray.1 hi)
  cases step with
  | act j =>
    cases heq
    have hmem := mem_of_mem_steps hstep
    rwa [body, List.mem_reverse] at hmem
  | _ => cases heq

end Formulary
