import Mathlib.Data.List.Forall2
import Formulary.Proofs.Machine.Forward

/-!
# Stack layouts

A layout says of each value on the stack what kind it is. A chart gives every line of an assembly a
layout such that each step leads from its own layout to that of the lines it may go on with. The
charts of parts can be put one after another, and the chart of a forward assembly is a table for its
program: whatever way a run takes to a position, the stack then has the layout of the position.
-/

namespace Formulary.Machine

open Lines

variable {ι τ α : Type}

/-- The kinds of values on a stack: those a jump decides on, the kinds of pushed values, and what
instructions do to a layout. -/
structure Discipline (ι α : Type) where
  decides : α → Prop
  pushes : Value → α → Prop
  acts : ι → List α → List α → Prop

/-- What a step does to a layout, wherever it goes on. -/
def Discipline.Effect (d : Discipline ι α) : Step τ ι → List α → List α → Prop
  | .push v, s, t => ∃ a, d.pushes v a ∧ t = a :: s
  | .drop, s, t => ∃ a, s = a :: t
  | .jump _, s, t => t = s
  | .jumpIf _ _, s, t => ∃ a, d.decides a ∧ s = a :: t
  | .act i, s, t => d.acts i s t

def Step.falls : Step τ ι → Bool
  | .jump _ => false
  | _ => true

theorem Discipline.effect_retarget {σ : Type} (d : Discipline ι α) (f : τ → σ) (x : Step τ ι) :
    d.Effect (x.retarget f) = d.Effect x := by
  cases x <;> rfl

theorem Step.falls_retarget {σ : Type} (f : τ → σ) (x : Step τ ι) :
    (x.retarget f).falls = x.falls := by
  cases x <;> rfl

theorem Step.target?_retarget {σ : Type} (f : τ → σ) (x : Step τ ι) :
    (x.retarget f).target? = x.target?.map f := by
  cases x <;> rfl

abbrev Chart (ι α : Type) := List (List α × Line ι Nat)

namespace Chart

abbrev lines (c : Chart ι α) : Lines ι := c.map Prod.snd

/-- The layout at the start of a chart that ends in a layout. -/
def start (out : List α) : Chart ι α → List α
  | [] => out
  | (s, _) :: _ => s

/-- The layout after the mark of a label. -/
def landing (l : Nat) (out : List α) : Chart ι α → Option (List α)
  | [] => none
  | (_, .mark m) :: c => if m = l then some (start out c) else landing l out c
  | (_, .step _) :: c => landing l out c

/-- Every step leads from its layout to that of the lines it may go on with. -/
def Flows (d : Discipline ι α) (out : List α) : Chart ι α → Prop
  | [] => True
  | (s, .mark _) :: c => s = start out c ∧ Flows d out c
  | (s, .step x) :: c =>
    (∀ l, x.target? = some l → ∃ t, d.Effect x s t ∧ landing l out c = some t) ∧
      (x.falls = true → d.Effect x s (start out c)) ∧ Flows d out c

variable {d : Discipline ι α} {out : List α}

/-- A step without a target leads to the chart behind it. -/
theorem Flows.through {c : Chart ι α} {x : Step Nat ι} {s : List α} (hx : x.target? = none)
    (heffect : d.Effect x s (start out c)) (hc : c.Flows d out) :
    Flows d out ((s, .step x) :: c) := by
  refine ⟨fun l hl => ?_, fun _ => heffect, hc⟩
  rw [hx] at hl
  cases hl

/-- A jump keeps its layout. -/
theorem Flows.jump {c : Chart ι α} {l : Nat} {s : List α} (hl : landing l out c = some s)
    (hc : c.Flows d out) :
    Flows d out ((s, .step (.jump l)) :: c) := by
  refine ⟨fun m hm => ?_, fun hfalls => ?_, hc⟩
  · cases hm
    exact ⟨s, rfl, hl⟩
  · cases hfalls

theorem start_append (a b : Chart ι α) : start out (a ++ b) = start (start out b) a := by
  cases a <;> rfl

theorem landing_append_of_some {l : Nat} {a b : Chart ι α} {t : List α}
    (h : landing l (start out b) a = some t) :
    landing l out (a ++ b) = some t := by
  induction a with
  | nil => cases h
  | cons x a ih =>
    obtain ⟨s, x⟩ := x
    cases x with
    | mark m =>
      rw [landing] at h
      rw [List.cons_append, landing]
      by_cases hm : m = l
      · rw [if_pos hm] at h ⊢
        rw [start_append]
        exact h
      · rw [if_neg hm] at h ⊢
        exact ih h
    | step x => exact ih h

theorem landing_append_of_not_mem {l : Nat} {a b : Chart ι α} (h : l ∉ marks a.lines) :
    landing l out (a ++ b) = landing l out b := by
  induction a with
  | nil => rfl
  | cons x a ih =>
    obtain ⟨s, x⟩ := x
    cases x with
    | mark m =>
      simp only [lines, List.map_cons, marks, List.mem_cons, not_or] at h
      rw [List.cons_append, landing, if_neg (Ne.symm h.1), ih h.2]
    | step x => exact ih h

/-- Charts one after another. -/
theorem Flows.append {a b : Chart ι α} (ha : Flows d (start out b) a) (hb : Flows d out b) :
    Flows d out (a ++ b) := by
  induction a with
  | nil => exact hb
  | cons x a ih =>
    obtain ⟨s, x⟩ := x
    cases x with
    | mark m =>
      obtain ⟨hs, ha⟩ := ha
      exact ⟨hs.trans (start_append a b).symm, ih ha⟩
    | step x =>
      obtain ⟨hjump, hfall, ha⟩ := ha
      refine ⟨fun l hl => ?_, fun hx => ?_, ih ha⟩
      · obtain ⟨t, ht, hland⟩ := hjump l hl
        exact ⟨t, ht, landing_append_of_some hland⟩
      · have := hfall hx
        rwa [← start_append] at this

theorem Flows.right {a b : Chart ι α} (h : Flows d out (a ++ b)) : Flows d out b := by
  induction a with
  | nil => exact h
  | cons x a ih =>
    obtain ⟨s, x⟩ := x
    cases x with
    | mark m => exact ih h.2
    | step x => exact ih h.2.2

/-- The layout before the step at a position. -/
def layout (out : List α) : Chart ι α → Nat → List α
  | [], _ => out
  | (_, .mark _) :: c, i => layout out c i
  | (s, .step _) :: _, 0 => s
  | (_, .step _) :: c, i + 1 => layout out c i

theorem layout_zero {c : Chart ι α} (h : Flows d out c) : layout out c 0 = start out c := by
  induction c with
  | nil => rfl
  | cons x c ih =>
    obtain ⟨s, x⟩ := x
    cases x with
    | mark m => rw [layout, ih h.2, start, h.1]
    | step x => rfl

theorem layout_append {o : List α} (a b : Chart ι α) (i : Nat) :
    layout o (a ++ b) ((steps a.lines).length + i) = layout o b i := by
  induction a with
  | nil => simp [steps]
  | cons x a ih =>
    obtain ⟨s, x⟩ := x
    cases x with
    | mark m => exact ih
    | step x =>
      simp only [lines, List.map_cons, steps, List.length_cons]
      rw [show (steps (a.map Prod.snd)).length + 1 + i =
        (steps (a.map Prod.snd)).length + i + 1 by omega]
      exact ih

/-- The position of a line. -/
theorem exists_split {c : Chart ι α} {i : Nat} {x : Step Nat ι} (h : (steps c.lines)[i]? = some x) :
    ∃ (front : Chart ι α) (s : List α) (rest : Chart ι α), c = front ++ (s, .step x) :: rest ∧
      (steps front.lines).length = i := by
  induction c generalizing i with
  | nil => simp [steps] at h
  | cons y c ih =>
    obtain ⟨s, y⟩ := y
    cases y with
    | mark m =>
      obtain ⟨front, t, rest, rfl, hi⟩ := ih h
      exact ⟨(s, .mark m) :: front, t, rest, rfl, hi⟩
    | step y =>
      cases i with
      | zero =>
        simp only [lines, List.map_cons, steps, List.getElem?_cons_zero, Option.some.injEq] at h
        exact ⟨[], s, c, by simp [h], rfl⟩
      | succ i =>
        obtain ⟨front, t, rest, rfl, hi⟩ := ih (by simpa [steps] using h)
        exact ⟨(s, .step y) :: front, t, rest, rfl, by simp [steps, hi]⟩

/-- A mark in a chart divides it. -/
theorem landing_split {c : Chart ι α} {l : Nat} {t : List α} (h : landing l out c = some t) :
    ∃ (front : Chart ι α) (s : List α) (rest : Chart ι α), c = front ++ (s, .mark l) :: rest ∧
      t = start out rest ∧ l ∉ marks front.lines := by
  induction c with
  | nil => cases h
  | cons y c ih =>
    obtain ⟨s, y⟩ := y
    cases y with
    | mark m =>
      rw [landing] at h
      by_cases hm : m = l
      · rw [if_pos hm] at h
        injection h with h
        subst hm
        exact ⟨[], s, c, rfl, h.symm, List.not_mem_nil⟩
      · rw [if_neg hm] at h
        obtain ⟨front, t, rest, rfl, ht, hn⟩ := ih h
        exact ⟨(s, .mark m) :: front, t, rest, rfl, ht, by simp [marks, Ne.symm hm, hn]⟩
    | step y =>
      obtain ⟨front, t, rest, rfl, ht, hn⟩ := ih h
      exact ⟨(s, .step y) :: front, t, rest, rfl, ht, hn⟩

theorem lines_append (a b : Chart ι α) : (a ++ b).lines = a.lines ++ b.lines := List.map_append

end Chart

/-- A table of layouts for a program that jumps forward only: each step leads from the layout of its
position to that of the positions it may go on with. -/
structure Program.Charted (d : Discipline ι α) (p : Program ι) (layout : Nat → List α) : Prop where
  jumps : ∀ i x t, p.steps[i]? = some x → x.target? = some t →
    i < t ∧ t ≤ p.size ∧ d.Effect x (layout i) (layout t)
  falls : ∀ i x, p.steps[i]? = some x → x.falls = true → d.Effect x (layout i) (layout (i + 1))

/-- The chart of a forward assembly is a table for its program. -/
theorem Chart.Flows.charted {d : Discipline ι α} {out : List α} {c : Chart ι α} (h : Flows d out c)
    (forward : Forward c.lines) : (assembled c.lines).Charted d (layout out c) := by
  have hstep : ∀ (i : Nat) (x : Step Nat ι), (assembled c.lines).steps[i]? = some x →
      ∃ y : Step Nat ι, (steps c.lines)[i]? = some y ∧ x = y.retarget fun l =>
        address l c.lines := by
    intro i x hx
    simp only [assembled, List.getElem?_toArray, List.getElem?_map, Option.map_eq_some_iff] at hx
    obtain ⟨y, hy, rfl⟩ := hx
    exact ⟨y, hy, rfl⟩
  refine ⟨fun i x t hx ht => ?_, fun i x hx hf => ?_⟩
  · obtain ⟨y, hy, rfl⟩ := hstep i x hx
    obtain ⟨front, s, rest, rfl, rfl⟩ := exists_split hy
    rw [Step.target?_retarget, Option.map_eq_some_iff] at ht
    obtain ⟨l, hl, rfl⟩ := ht
    obtain ⟨hjump, -, hrest⟩ := h.right
    obtain ⟨t, heff, hland⟩ := hjump l hl
    obtain ⟨middle, u, after, rfl, rfl, hmid⟩ := landing_split hland
    -- The label is marked after the step alone, so its address counts the steps up to its mark.
    have hsplit : front ++ (s, Line.step y) :: (middle ++ (u, .mark l) :: after) =
        (front ++ (s, Line.step y) :: middle) ++ (u, .mark l) :: after := by simp
    have hfront : l ∉ marks (front ++ (s, Line.step y) :: middle).lines := by
      rw [lines_append] at forward
      have hmem : l ∈ marks (lines ((s, Line.step y) :: (middle ++ (u, .mark l) :: after))) := by
        simp [lines, marks]
      have hleft : l ∉ marks front.lines := fun hl => forward.right.2 l hl hmem
      rw [lines_append, marks_append, List.mem_append, not_or]
      exact ⟨hleft, by simpa [lines, marks] using hmid⟩
    have haddress : address l (front ++ (s, Line.step y) ::
      (middle ++ (u, .mark l) :: after)).lines =
        (steps (front ++ (s, Line.step y) :: middle).lines).length := by
      rw [hsplit, lines_append]
      exact address_append _ hfront
    have hhere := layout_append (o := out) front
      ((s, .step y) :: (middle ++ (u, .mark l) :: after)) 0
    have hthere := layout_append (o := out) (front ++ (s, Line.step y) :: middle)
      ((u, .mark l) :: after) 0
    rw [Nat.add_zero] at hhere hthere
    rw [← hsplit, ← haddress] at hthere
    rw [d.effect_retarget, hhere, hthere]
    refine ⟨?_, ?_, ?_⟩
    · rw [haddress]
      simp [lines, steps]
    · rw [haddress, assembled_size]
      simp [lines, steps]
    · simp only [layout, layout_zero hrest.right.2]
      exact heff
  · obtain ⟨y, hy, rfl⟩ := hstep i x hx
    obtain ⟨front, s, rest, rfl, rfl⟩ := exists_split hy
    obtain ⟨-, hfall, hrest⟩ := h.right
    rw [Step.falls_retarget] at hf
    have h0 := layout_append (o := out) front ((s, .step y) :: rest) 0
    have h1 := layout_append (o := out) front ((s, .step y) :: rest) 1
    rw [Nat.add_zero] at h0
    rw [d.effect_retarget, h0, h1]
    simp only [layout, layout_zero hrest]
    exact hfall hf

/-- The position, stack and tally a run comes to, step by step. -/
inductive Program.Reaches (p : Program ι) (perform : ι → Stack → Eval Stack) (tally : Tally) :
    Nat → Stack → Tally → Prop
  | start : Reaches p perform tally 0 [] tally
  | step {i j : Nat} {x : Step Nat ι} {stack stack' : Stack} {t t' : Tally}
      (h : Reaches p perform tally i stack t)
    (hx : p.steps[i]? = some x) (hrun : (x.run perform i stack).run t = (.ok (j, stack'), t')) :
    Reaches p perform tally j stack' t'

/-- An evaluation followed by another. -/
theorem run_bind_eq {β γ : Type} (f : Eval β) (g : β → Eval γ) (t : Tally) :
    (f >>= g).run t = match f.run t with
      | (.ok b, u) => (g b).run u
      | (.error e, u) => (.error e, u) := by
  show (ExceptT.bindCont g (f.run t).1) (f.run t).2 = _
  obtain ⟨r, u⟩ := f.run t
  cases r <;> rfl

/-- It has a value if both have. -/
theorem run_bind_eq_ok {β γ : Type} {f : Eval β} {g : β → Eval γ} {c : γ} {t t' : Tally} :
    (f >>= g).run t = (.ok c, t') ↔ ∃ b u, f.run t = (.ok b, u) ∧ (g b).run u = (.ok c, t') := by
  rw [run_bind_eq]
  obtain ⟨r, u⟩ := f.run t
  cases r with
  | ok b =>
    refine ⟨fun h => ⟨b, u, rfl, h⟩, ?_⟩
    rintro ⟨b, u, h, hg⟩
    cases h
    exact hg
  | error e =>
    refine ⟨nofun, ?_⟩
    rintro ⟨b, u, h, -⟩
    cases h

theorem run_pure_eq_ok {β : Type} {b c : β} {t t' : Tally} :
    (pure b : Eval β).run t = (.ok c, t') ↔ b = c ∧ t = t' := by
  constructor
  · intro h
    cases h
    exact ⟨rfl, rfl⟩
  · rintro ⟨rfl, rfl⟩
    rfl

theorem run_breakdown_ne_ok {β : Type} {c : β} {t t' : Tally} :
    (breakdown : Eval β).run t ≠ (.ok c, t') := nofun

/-- What a discipline promises of values: pushed values and the results of instructions are of the
kinds it says. -/
structure Discipline.Sound (d : Discipline ι α) (perform : ι → Stack → Eval Stack)
    (has : α → Value → Prop) : Prop where
  push : ∀ v a, d.pushes v a → has a v
  act : ∀ i s s' stack stack' t t', d.acts i s s' → List.Forall₂ has s stack →
    (perform i stack).run t = (.ok stack', t') → List.Forall₂ has s' stack'

namespace Program.Charted

variable {d : Discipline ι α} {p : Program ι} {layout : Nat → List α}
  {perform : ι → Stack → Eval Stack}
  {has : α → Value → Prop}

/-- One step leads forward, from a stack with the layout of its position to one with the layout of
the next. -/
theorem step (h : p.Charted d layout) (sound : d.Sound perform has) {i j : Nat} {x : Step Nat ι}
    {stack stack' : Stack}
    {t t' : Tally} (hx : p.steps[i]? = some x) (hs : List.Forall₂ has (layout i) stack)
    (hrun : (x.run perform i stack).run t = (.ok (j, stack'), t')) :
    i < j ∧ j ≤ p.size ∧ List.Forall₂ has (layout j) stack' := by
  have hi : i + 1 ≤ p.size := by
    have := Array.getElem?_eq_some_iff.1 hx
    exact this.1
  cases x with
  | push v =>
    obtain ⟨⟨rfl, rfl⟩, rfl⟩ := by simpa [Step.run, run_pure_eq_ok] using hrun
    obtain ⟨a, ha, hl⟩ := h.falls i _ hx rfl
    exact ⟨Nat.lt_succ_self i, hi, hl ▸ .cons (sound.push v a ha) hs⟩
  | drop =>
    obtain ⟨a, hl⟩ := h.falls i _ hx rfl
    rw [hl] at hs
    cases hs with
    | cons hv hs =>
      obtain ⟨⟨rfl, rfl⟩, rfl⟩ := by simpa [Step.run, run_pure_eq_ok] using hrun
      exact ⟨Nat.lt_succ_self i, hi, hs⟩
  | jump target =>
    obtain ⟨⟨rfl, rfl⟩, rfl⟩ := by simpa [Step.run, run_pure_eq_ok] using hrun
    obtain ⟨hlt, hle, hl⟩ := h.jumps i _ j hx rfl
    have hl : layout j = layout i := hl
    exact ⟨hlt, hle, hl ▸ hs⟩
  | jumpIf wanted target =>
    obtain ⟨hlt, hle, a, -, htaken⟩ := h.jumps i _ target hx rfl
    obtain ⟨b, -, hpassed⟩ := h.falls i _ hx rfl
    cases hstack : stack with
    | nil =>
      rw [hstack, htaken] at hs
      cases hs
    | cons v rest =>
      rw [hstack] at hrun
      have hbool : ∃ b, v = .bool b := by
        cases v with
        | bool b => exact ⟨b, rfl⟩
        | _ => exact absurd hrun run_breakdown_ne_ok
      obtain ⟨b, rfl⟩ := hbool
      simp only [Step.run, run_pure_eq_ok, Prod.mk.injEq] at hrun
      obtain ⟨⟨hj, rfl⟩, rfl⟩ := hrun
      by_cases hb : (b == wanted) = true
      · rw [if_pos hb] at hj
        rw [hstack, htaken] at hs
        cases hs with
        | cons _ hs => exact ⟨hj ▸ hlt, hj ▸ hle, hj ▸ hs⟩
      · rw [if_neg hb] at hj
        rw [hstack, hpassed] at hs
        cases hs with
        | cons _ hs => exact ⟨hj ▸ Nat.lt_succ_self i, hj ▸ hi, hj ▸ hs⟩
  | act a =>
    obtain ⟨u, t₁, hperform, hp⟩ := run_bind_eq_ok.1 hrun
    obtain ⟨⟨rfl, rfl⟩, rfl⟩ := by simpa [run_pure_eq_ok] using hp
    exact ⟨Nat.lt_succ_self i, hi, sound.act a _ _ _ _ _ _ (h.falls i _ hx rfl) hs hperform⟩

/-- Every state a run comes to has the layout of its position. -/
theorem reaches (h : p.Charted d layout) (sound : d.Sound perform has) (h0 : layout 0 = [])
    {tally t : Tally} {i : Nat} {stack : Stack} (hr : p.Reaches perform tally i stack t) :
    i ≤ p.size ∧ List.Forall₂ has (layout i) stack := by
  induction hr with
  | start => exact ⟨Nat.zero_le _, h0 ▸ .nil⟩
  | step _ hx hrun ih =>
    obtain ⟨-, hle, hs⟩ := h.step sound hx ih.2 hrun
    exact ⟨hle, hs⟩

end Program.Charted

/-- The stack a run ends with is reached at a position without a step. -/
theorem Program.runFrom_reaches {p : Program ι} {perform : ι → Stack → Eval Stack}
    {tally t t' : Tally} {fuel i : Nat}
    {stack stack' : Stack} (hr : p.Reaches perform tally i stack t)
    (hrun : (p.runFrom perform fuel i stack).run t = (.ok stack', t')) :
    ∃ j, p.Reaches perform tally j stack' t' ∧ p.steps[j]? = none := by
  induction fuel generalizing i stack t with
  | zero =>
    rw [Program.runFrom] at hrun
    split at hrun
    case h_1 hx =>
      obtain ⟨rfl, rfl⟩ := run_pure_eq_ok.1 hrun
      exact ⟨i, hr, hx⟩
    case h_2 x hx => exact absurd hrun run_breakdown_ne_ok
  | succ fuel ih =>
    rw [Program.runFrom] at hrun
    split at hrun
    case h_1 hx =>
      obtain ⟨rfl, rfl⟩ := run_pure_eq_ok.1 hrun
      exact ⟨i, hr, hx⟩
    case h_2 x hx =>
      obtain ⟨⟨j, u⟩, t₁, hstep, hrest⟩ := run_bind_eq_ok.1 hrun
      exact ih (.step hr hx hstep) hrest

end Formulary.Machine
