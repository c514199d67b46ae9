import Mathlib.Data.Finset.Card
import Mathlib.Logic.Relation
import Formulary.Proofs.Scope.Consistency
import Formulary.Proofs.Session.TypeSafety

/-!
# Formulas that do not read themselves

A variable that holds an expression is evaluated each time it is read. Nothing keeps an expression
out of a variable that it reads itself, directly or through other variables. As long as no such
expression is put into a variable, no variable leads back to itself, and every evaluation comes to
an end within the depth that is kept for it.
-/

namespace Formulary

open Machine

def Machine.Step.variable? : Step Nat Instruction → Option String
  | .act (.variable name _) => some name
  | _ => none

/-- The names of the variables that a compiled text reads. -/
def Compiled.names (c : Compiled) : List String := c.program.steps.toList.filterMap Step.variable?

theorem Compiled.mem_names {c : Compiled} {name : String} {t : Ty}
    (h : .act (.variable name t) ∈ c.program.steps) :
    name ∈ c.names :=
  List.mem_filterMap.2 ⟨_, Array.mem_toList_iff.2 h, rfl⟩

section Runs

/-- A run depends on what the instructions of its program do. -/
theorem Machine.Program.runFrom_congr {ι : Type} {p : Program ι}
    {perform perform' : ι → Stack → Eval Stack}
    (h : ∀ i stack, .act i ∈ p.steps → perform' i stack = perform i stack) (fuel position : Nat)
    (stack : Stack) :
    p.runFrom perform' fuel position stack = p.runFrom perform fuel position stack := by
  induction fuel generalizing position stack with
  | zero =>
    unfold runFrom
    cases p.steps[position]? <;> rfl
  | succ fuel ih =>
    unfold runFrom
    cases hstep : p.steps[position]? with
    | none => rfl
    | some step =>
      have hrun : step.run perform' position stack = step.run perform position stack := by
        cases step with
        | act i => simp only [Step.run, h i stack (Array.mem_of_getElem? hstep)]
        | _ => rfl
      simp only [hrun, ih]

/-- A program finds the same where the names that it reads are loaded alike. -/
theorem runProgram_congr (env : Environment) {load : String → Ty → Eval Value} {c : Compiled}
    (h : ∀ name ∈ c.names, ∀ t, load name t = env.load name t) :
    runProgram { env with load := load } c.program = runProgram env c.program := by
  have hperform : ∀ i stack, .act i ∈ c.program.steps →
      Instruction.perform { env with load := load } i stack = Instruction.perform env i stack := by
    intro i stack hi
    cases i with
    | «variable» name t => simp only [Instruction.perform, h name (Compiled.mem_names hi) t]
    | _ => rcases stack with _ | ⟨x, _ | ⟨y, rest⟩⟩ <;> rfl
  rw [runProgram, runProgram, Program.run, Program.run, Program.runFrom_congr hperform]

/-- Only a formula is evaluated when a variable is loaded. -/
theorem Store.load_congr {s : Store} {host : Host}
    {evaluate evaluate' : Nat → Eval Value} {name : String}
    (h : ∀ v n t, s.find? name = some v → v.held = .formula n t →
      evaluate n = evaluate' n) (t : Ty) :
    s.load host evaluate name t = s.load host evaluate' name t := by
  unfold Store.load
  cases hfind : s.find? name with
  | none => rfl
  | some v =>
    obtain ⟨x, type, held⟩ := v
    cases held with
    | value y => rfl
    | formula n u => simp only [h _ n u hfind rfl]

end Runs

section Relations

open Relation

variable {α : Type} {R R' : α → α → Prop} {a : α}

/-- Steps that lead to a point lead there without the steps from the point itself. -/
theorem reflTransGen_of_redirected (hR : ∀ x y, R' x y → x ≠ a → R x y) {x : α}
    (h : ReflTransGen R' x a) :
    ReflTransGen R x a := by
  induction h using ReflTransGen.head_induction_on with
  | refl => exact .refl
  | @head x y hxy _ ih =>
    by_cases hx : x = a
    · exact hx ▸ .refl
    · exact .head (hR x y hxy hx) ih

/-- A relation without circles has none either if one point is directed to others that do not lead
to it. -/
theorem acyclic_of_redirected (hR : ∀ x y, R' x y → x ≠ a → R x y)
    (ha : ∀ y, R' a y → ¬ReflTransGen R y a)
    (hacyclic : ∀ x, ¬TransGen R x x) (x : α) : ¬TransGen R' x x := by
  -- Steps that do not pass the point are steps of the old relation.
  have hsplit : ∀ {x y}, TransGen R' x y → TransGen R x y ∨ ReflTransGen R' x a ∧ ∃ z, R' a z ∧
      ReflTransGen R' z y := by
    intro x y h
    induction h with
    | @single y hxy =>
      by_cases hx : x = a
      · exact .inr ⟨hx ▸ .refl, y, hx ▸ hxy, .refl⟩
      · exact .inl (.single (hR x y hxy hx))
    | @tail y z hxy hyz ih =>
      by_cases hy : y = a
      · exact .inr ⟨hy ▸ hxy.to_reflTransGen, z, hy ▸ hyz, .refl⟩
      · rcases ih with ih | ⟨hxa, u, hau, huy⟩
        · exact .inl (ih.tail (hR y z hyz hy))
        · exact .inr ⟨hxa, u, hau, huy.tail hyz⟩
  intro h
  rcases hsplit h with h | ⟨hxa, z, haz, hzx⟩
  · exact hacyclic x h
  · exact ha z haz (reflTransGen_of_redirected hR (hzx.trans hxa))

end Relations

namespace Workspace

open Relation

/-- A variable holds an expression that reads another, each known by the key of its name. -/
def Leads (w : Workspace) (k l : Text) : Prop :=
  ∃ v n t e name, w.store.at? k = some v ∧ v.held = .formula n t ∧ w.expressions[n]? = some e ∧
    name ∈ e.compiled.names ∧ w.store.key name = l

def Acyclic (w : Workspace) : Prop := ∀ k, ¬TransGen w.Leads k k

/-- What may be held under a name without leading back to it: a value, or an expression that does
not read the name, neither itself nor through the variables that it reads. -/
def Apart (w : Workspace) (name : String) : Held → Prop
  | .value _ => True
  | .formula n _ => ∃ e, w.expressions[n]? = some e ∧
    ∀ x ∈ e.compiled.names, ¬ReflTransGen w.Leads (w.store.key x) (w.store.key name)

/-- One step of a session in which no expression is put where it leads back to. -/
inductive Amends (w : Workspace) : Workspace → Prop
  | compile {n m : Nat} {f : Options → Options} {text : Text} {w' : Workspace}
      (h : w.compile n f text = .ok (m, w')) :
    Amends w w'
  | define {name : String} {type : Option Ty} {held : Held} {s : Store} (hheld : w.Apart name held)
    (h : w.store.define w.host name type held = (.ok (), s)) : Amends w { w with store := s }
  | set {name : String} {held : Held} {s : Store} (hheld : w.Apart name held)
    (h : w.store.set w.host name held = (.ok (), s)) : Amends w { w with store := s }
  | remove (name : String) : Amends w { w with store := w.store.remove name }

structure Untangled (w : Workspace) : Prop where
  acyclic : w.Acyclic
  held : ∀ k v n t, w.store.at? k = some v → v.held = .formula n t → n < w.expressions.size

section Steps

variable {w w' : Workspace}

/-- A compiled text adds an expression and changes no variable. -/
theorem compile_adds {n m : Nat} {f : Options → Options} {text : Text}
    (h : w.compile n f text = .ok (m, w')) :
    w'.store = w.store ∧ ∃ e, w'.expressions = w.expressions.push e := by
  unfold Workspace.compile at h
  split at h
  · cases h
  · rename_i c hc
    obtain ⟨compiled, -, h⟩ := bind_eq_ok.1 h
    simp only [cloneContext, hc] at h
    split at h <;> (cases h; exact ⟨rfl, _, rfl⟩)

theorem Untangled.compile (h : w.Untangled) {n m : Nat} {f : Options → Options} {text : Text}
    (hcompile : w.compile n f text = .ok (m, w')) : w'.Untangled := by
  obtain ⟨hstore, e, hexpressions⟩ := compile_adds hcompile
  have hleads : ∀ k l, w'.Leads k l → w.Leads k l := by
    rintro k l ⟨v, n, t, e', name, hv, hheld, he', hreads, hname⟩
    rw [hstore] at hv hname
    rw [hexpressions, Array.getElem?_push, if_neg (Nat.ne_of_lt (h.held k v n t hv hheld))] at he'
    exact ⟨v, n, t, e', name, hv, hheld, he', hreads, hname⟩
  refine ⟨fun k hk => h.acyclic k (TransGen.mono hleads k k hk), fun k v n t hv hheld => ?_⟩
  rw [hexpressions, Array.size_push]
  exact Nat.lt_succ_of_lt (h.held k v n t (hstore ▸ hv) hheld)

/-- What is held apart from a name can be put there. -/
theorem Untangled.hold (h : w.Untangled) {name : String} {v : Variable}
    (hheld : w.Apart name v.held) :
    ({ w with store := w.store.holding (w.store.key name) v } : Workspace).Untangled := by
  constructor
  · refine acyclic_of_redirected (R := w.Leads) (a := w.store.key name) ?_ ?_ h.acyclic
    · rintro k l ⟨v', n, t, e, x, hv', hrest⟩ hk
      rw [Store.at?_holding, if_neg hk] at hv'
      exact ⟨v', n, t, e, x, hv', hrest⟩
    · rintro l ⟨v', n, t, e, x, hv', hformula, he, hreads, rfl⟩
      rw [Store.at?_holding, if_pos rfl] at hv'
      cases hv'
      rw [hformula] at hheld
      obtain ⟨e', he', hapart⟩ := hheld
      rw [he] at he'
      cases he'
      exact hapart x hreads
  · intro k v' n t hv' hformula
    rw [Store.at?_holding] at hv'
    split at hv'
    · cases hv'
      rw [hformula] at hheld
      obtain ⟨e, he, -⟩ := hheld
      exact lt_size_of_getElem? he
    · exact h.held k v' n t hv' hformula

theorem Untangled.remove (h : w.Untangled) (name : String) :
    ({ w with store := w.store.remove name } : Workspace).Untangled := by
  have hat : ∀ {k v}, (w.store.remove name).at? k = some v → w.store.at? k = some v := by
    intro k v hv
    rw [Store.at?_remove] at hv
    split at hv
    · cases hv
    · exact hv
  refine ⟨fun k hk => h.acyclic k (TransGen.mono ?_ k k hk), fun k v n t hv =>
    h.held k v n t (hat hv)⟩
  rintro k l ⟨v, n, t, e, x, hv, hrest⟩
  exact ⟨v, n, t, e, x, hat hv, hrest⟩

/-- A step keeps a workspace untangled. -/
theorem Untangled.amends (h : w.Untangled) (hstep : w.Amends w') : w'.Untangled := by
  cases hstep with
  | compile hcompile => exact h.compile hcompile
  | define hheld hdefine =>
    obtain ⟨t, -, -, -, rfl⟩ := Store.define_eq_ok hdefine
    exact h.hold hheld
  | set hheld hset =>
    obtain ⟨v, -, -, rfl⟩ | ⟨t, -, -, rfl⟩ := Store.set_eq_ok hset
    · exact h.hold hheld
    · exact h.hold hheld
  | remove name => exact h.remove name

/-- So does a whole session, which starts without variables. -/
theorem untangled_of_amends {host : Host} {c : Context}
    (h : ReflTransGen Amends (create host c) w) : w.Untangled := by
  induction h with
  | refl =>
    have hnone : ∀ k, (create host c).store.at? k = none := fun _ => rfl
    refine ⟨fun k hk => ?_, fun k v n t hv => ?_⟩
    · obtain ⟨l, ⟨v, n, t, e, x, hv, -⟩, -⟩ := TransGen.head'_iff.1 hk
      rw [hnone] at hv
      cases hv
    · rw [hnone] at hv
      cases hv
  | tail _ hstep ih => exact ih.amends hstep

end Steps

section Depth

variable {w : Workspace}

/-- An expression reads a variable that holds another one. -/
def Calls (w : Workspace) (n m : Nat) : Prop :=
  ∃ e name v t, w.expressions[n]? = some e ∧ name ∈ e.compiled.names ∧ w.store.find? name = some v ∧
    v.held = .formula m t

/-- Calls one after another go from variable to variable. -/
theorem leads_of_calls {n m : Nat} (h : TransGen w.Calls n m) : ∃ e name k v t,
    w.expressions[n]? = some e ∧
    name ∈ e.compiled.names ∧ ReflTransGen w.Leads (w.store.key name) k ∧ w.store.at? k = some v ∧
      v.held = .formula m t := by
  induction h with
  | single h =>
    obtain ⟨e, name, v, t, he, hreads, hfind, hheld⟩ := h
    exact ⟨e, name, _, v, t, he, hreads, .refl, hfind, hheld⟩
  | tail _ h ih =>
    obtain ⟨e, name, k, v, t, he, hreads, hleads, hat, hheld⟩ := ih
    obtain ⟨e', name', v', t', he', hreads', hfind, hheld'⟩ := h
    exact ⟨e, name, _, v', t', he, hreads, hleads.tail
      ⟨v, _, t, e', name', hat, hheld, he', hreads', rfl⟩, hfind, hheld'⟩

/-- No expression calls itself where no variable leads to itself. -/
theorem Acyclic.calls (h : w.Acyclic) (n : Nat) : ¬TransGen w.Calls n n := by
  intro hcalls
  obtain ⟨e, name, k, v, t, he, hreads, hleads, hat, hheld⟩ := leads_of_calls hcalls
  exact h k (.head' ⟨v, n, t, e, name, hat, hheld, he, hreads, rfl⟩ hleads)

open Classical in
/-- The expressions that an expression calls, at any depth. -/
noncomputable def below (w : Workspace) (n : Nat) : Finset Nat :=
  (Finset.range w.expressions.size).filter fun m => TransGen w.Calls n m

theorem mem_below {n m : Nat} : m ∈ w.below n ↔ m < w.expressions.size ∧ TransGen w.Calls n m := by
  simp [below]

/-- An expression that is called calls fewer ones. -/
theorem Acyclic.card_below_lt (h : w.Acyclic) {n m : Nat} (hm : m < w.expressions.size)
    (hcalls : w.Calls n m) :
    (w.below m).card < (w.below n).card := by
  refine Finset.card_lt_card ⟨fun x hx => ?_, fun hsubset => ?_⟩
  · obtain ⟨hsize, hx⟩ := mem_below.1 hx
    exact mem_below.2 ⟨hsize, .head hcalls hx⟩
  · have hself := hsubset (mem_below.2 ⟨hm, .single hcalls⟩)
    exact h.calls m (mem_below.1 hself).2

theorem card_below_le (w : Workspace) (n : Nat) : (w.below n).card ≤ w.expressions.size := by
  have hsubset : w.below n ⊆ Finset.range w.expressions.size := fun m hm =>
    Finset.mem_range.2 (mem_below.1 hm).1
  simpa using Finset.card_le_card hsubset

theorem valueOf_eq_breakdown {n : Nat} (h : w.expressions[n]? = none) (depth : Nat) :
    w.valueOf depth n = breakdown := by
  cases depth with
  | zero => rfl
  | succ depth => rw [valueOf, h]

/-- A depth above the number of expressions that an expression calls is enough for it. -/
theorem Acyclic.valueOf_eq (h : w.Acyclic) (n : Nat) {depth depth' : Nat}
    (hdepth : (w.below n).card < depth)
    (hdepth' : (w.below n).card < depth') : w.valueOf depth n = w.valueOf depth' n := by
  induction hcard : (w.below n).card using Nat.strong_induction_on generalizing n depth depth' with
  | _ card ih =>
    cases he : w.expressions[n]? with
    | none => rw [valueOf_eq_breakdown he, valueOf_eq_breakdown he]
    | some e =>
      obtain ⟨a, rfl⟩ := Nat.exists_eq_add_one_of_ne_zero (Nat.ne_of_gt (Nat.zero_lt_of_lt hdepth))
      obtain ⟨b, rfl⟩ := Nat.exists_eq_add_one_of_ne_zero (Nat.ne_of_gt (Nat.zero_lt_of_lt hdepth'))
      rw [valueOf_succ he, valueOf_succ he]
      refine runProgram_congr (w.environment b e) fun name hreads t => ?_
      refine Store.load_congr (fun v m type hfind hheld => ?_) t
      cases hm : w.expressions[m]? with
      | none => rw [valueOf_eq_breakdown hm, valueOf_eq_breakdown hm]
      | some e' =>
        have hless := h.card_below_lt (lt_size_of_getElem? hm)
          ⟨e, name, v, type, he, hreads, hfind, hheld⟩
        exact ih _ (hcard ▸ hless) m (by omega) (by omega) rfl

end Depth

section Raised

/-- A price and one more. -/
def raised : Text := Text.ofString "price + 1"

theorem spelled_raised : Context.usual.firstNames raised = ["price"] ∧
    ((Context.usual.compile .bare (pricedAs "price" 2) Context.usual.options raised).toOption.any
      fun x =>
      x.type == .int .int && x.names == ["price"]) = true := by
  rw [Context.firstNames, Context.compile, Context.element, Context.parse, Grammar.parse_standing]
  decide +kernel

theorem firstNames_raised : Context.usual.firstNames raised = ["price"] := spelled_raised.1

theorem compile_raised : ∃ x, Context.usual.compile .bare (priced 2) Context.usual.options
    raised = .ok x ∧
    x.type = .int .int ∧ x.names = ["price"] := by
  have hok := spelled_raised.2
  rw [← compile_pricedAs rfl firstNames_raised] at hok
  obtain ⟨x, hx, hok⟩ := exists_ok_of_any hok
  exact ⟨x, hx, by simpa using hok⟩

def raising (x : Compiled) : Workspace := ⟨.bare, priced 2, #[.usual, .usual], #[⟨x, 1, .nil⟩], []⟩

theorem compile_raising {x : Compiled} {text : Text}
    (h : Context.usual.compile .bare (priced 2) Context.usual.options text = .ok x) :
    ({ create .bare .usual with
      store := priced 2 } : Workspace).compile 0 id text = .ok (0, raising x) := by
  show (Context.usual.compile .bare (priced 2) Context.usual.options text >>= _) = _
  rw [h]
  rfl

theorem key_raised : nameKey false "price" ≠ nameKey false "raised" := by
  rw [nameKey_false, nameKey_false]
  decide +kernel

theorem define_raised : (priced 2).define .bare "raised" none (.formula 0 (.int .int)) =
    (.ok (), (priced 2).holding (nameKey false "raised")
      ⟨"raised", .int .int, .formula 0 (.int .int)⟩) := by
  have hnew : (priced 2).find? "raised" = none :=
    (Store.at?_holding {} (nameKey false "price") _ _).trans (if_neg (Ne.symm key_raised))
  exact Store.define_of_new rfl rfl rfl hnew

theorem set_raised : (priced 2).set .bare "price" (.formula 0 (.int .int)) =
    (.ok (), (priced 2).holding (nameKey false "price")
      ⟨"price", .int .int, .formula 0 (.int .int)⟩) :=
  (Store.set_of_find? (find?_priced 2) rfl).trans rfl

/-- A price that is a number leads nowhere. -/
theorem raising_apart {x : Compiled} (h : x.names = ["price"]) :
    (raising x).Apart "raised" (.formula 0 (.int .int)) := by
  refine ⟨⟨x, 1, .nil⟩, rfl, fun name hname hleads => ?_⟩
  rw [h, List.mem_singleton] at hname
  subst hname
  rcases ReflTransGen.cases_head hleads with hsame | ⟨l, ⟨v, n, t, e, name, hv, hheld, -⟩, -⟩
  · exact key_raised hsame
  · have hprice : (raising x).store.at? ((raising x).store.key "price") =
      some ⟨"price", .int .int, .value (.int .int 2)⟩ :=
      find?_priced 2
    rw [hprice] at hv
    cases hv
    cases hheld

end Raised

/-- In a session that compiles texts, defines, sets and removes variables, and puts no expression
where it leads back to: no variable leads to itself, and an evaluation to any greater depth gives
what the evaluation of an expression gives. -/
theorem evaluate_settles {host : Host} {c : Context} {w : Workspace}
    (h : ReflTransGen Amends (create host c) w) :
    w.Acyclic ∧ ∀ n depth, w.expressions.size < depth →
      (w.valueOf depth n).run w.tally = ((w.evaluate n).1, (w.evaluate n).2.tally) := by
  have hacyclic := (untangled_of_amends h).acyclic
  refine ⟨hacyclic, fun n depth hdepth => ?_⟩
  have hsame := hacyclic.valueOf_eq n (Nat.lt_of_le_of_lt (card_below_le w n) hdepth)
    (Nat.lt_succ_of_le (card_below_le w n))
  rw [hsame]
  rfl

/-- A variable that is calculated from a price has a value at any depth that is enough. -/
theorem evaluate_raised_settles : ∃ w, ReflTransGen Amends (create .bare .usual) w ∧
    w.store.at? (nameKey false "raised") = some
      ⟨"raised", .int .int, .formula 0 (.int .int)⟩ ∧ w.Acyclic ∧
      ∀ depth, 1 < depth → (w.valueOf depth 0).run w.tally =
        ((w.evaluate 0).1, (w.evaluate 0).2.tally) := by
  obtain ⟨x, hx, -, hnames⟩ := compile_raised
  have hdefine : (create .bare .usual).store.define .bare "price" none (.value (.int .int 2)) =
    (.ok (), priced 2) := rfl
  have hvalue : (create .bare .usual).Apart "price" (.value (.int .int 2)) := trivial
  have hpriced := ReflTransGen.single (Amends.define hvalue hdefine)
  have hraising := hpriced.tail (.compile (compile_raising hx))
  have hsession := hraising.tail (.define (raising_apart hnames) define_raised)
  obtain ⟨hacyclic, hvalue⟩ := evaluate_settles hsession
  exact ⟨_, hsession, by simp, hacyclic, hvalue 0⟩

/-- Nothing keeps an expression out of the variable that it reads. -/
theorem set_raised_cyclic : ∃ (x : Compiled) (w : Workspace) (s : Store),
    ({ create .bare .usual with store := priced 2 } : Workspace).compile 0 id raised =
      .ok (0, w) ∧
    w.expressions[0]? = some ⟨x, 1, .nil⟩ ∧
    w.store.set w.host "price" (.formula 0 x.type) = (.ok (), s) ∧
    ¬({ w with store := s } : Workspace).Acyclic := by
  obtain ⟨x, hx, htype, hnames⟩ := compile_raised
  refine ⟨x, raising x, _, compile_raising hx, rfl, by rw [htype]; exact set_raised,
    fun hacyclic => ?_⟩
  refine hacyclic (nameKey false "price") (.single
    ⟨⟨"price", .int .int, .formula 0 (.int .int)⟩, 0, .int .int,
    ⟨x, 1, .nil⟩, "price", ?_, rfl, rfl, ?_, rfl⟩)
  · exact (Store.at?_holding _ _ _ _).trans (if_pos rfl)
  · rw [hnames]
    exact List.mem_singleton_self _

end Workspace

end Formulary
