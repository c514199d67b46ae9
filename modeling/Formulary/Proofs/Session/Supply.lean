import Formulary.Proofs.Element.Safety
import Formulary.Proofs.Scope.Consistency
import Formulary.Session.Workspace

/-!
# What sessions hold

Stores of genuine values and hooks that supply genuine values, of whatever types; contexts whose
imports, overloads and conversions are honest. The operations on stores and imports keep them so,
and what is loaded from such a store is of the type that is asked for.
-/

namespace Formulary

open Machine

variable {host : Host}

def Held.Genuine (host : Host) : Held → Prop
  | .value v => v.Genuine host
  | .formula .. => True

structure Hooks.Genuine (host : Host) (h : Hooks) : Prop where
  variableValue : ∀ supply, h.variableValue = some supply → ∀ name t tally tally' v,
    (supply name t).run tally = (.ok v, tally') → v.Genuine host
  functionCall : ∀ call, h.functionCall = some call → ∀ name args tally tally' v,
    (∀ a ∈ args, a.Genuine host) →
    (call name args).run tally = (.ok v, tally') → v.Genuine host

structure Store.Genuine (host : Host) (s : Store) : Prop where
  entries : ∀ e ∈ s.entries, e.2.held.Genuine host
  hooks : s.hooks.Genuine host

namespace Store.Genuine

variable {s s' : Store} {name : String}

/-- A store with one more genuine value. -/
theorem holding (h : s.Genuine host) {k : Text} {v : Variable} (hv : v.held.Genuine host) :
    (s.holding k v).Genuine host := by
  refine ⟨fun e he => ?_, h.hooks⟩
  rcases mem_of_mem_put he with rfl | he
  · exact hv
  · exact h.entries e he

theorem define (h : s.Genuine host) {type : Option Ty} {held : Held} (hheld : held.Genuine host)
    (hdefine : s.define host name type held = (.ok (), s')) : s'.Genuine host := by
  obtain ⟨t, -, -, -, rfl⟩ := define_eq_ok hdefine
  exact h.holding hheld

theorem set (h : s.Genuine host) {held : Held} (hheld : held.Genuine host)
    (hset : s.set host name held = (.ok (), s')) : s'.Genuine host := by
  obtain ⟨v, -, -, rfl⟩ | ⟨t, -, -, rfl⟩ := set_eq_ok hset
  · exact h.holding hheld
  · exact h.holding hheld

theorem remove (h : s.Genuine host) (name : String) : (s.remove name).Genuine host :=
  ⟨fun e he => h.entries e (List.mem_filter.1 he).1, h.hooks⟩

theorem clear (h : s.Genuine host) : s.clear.Genuine host := ⟨nofun, h.hooks⟩

theorem withCaseRule (h : s.Genuine host) (caseSensitive : Bool) :
    (s.withCaseRule caseSensitive).Genuine host := by
  refine ⟨fun e he => ?_, ?_⟩
  · obtain ⟨e', he', heq⟩ := Consistent.exists_of_mem_withCaseRule he
    exact heq ▸ h.entries e' he'
  · unfold Store.withCaseRule
    split <;> exact h.hooks

end Store.Genuine

/-- An evaluation whose failure names a variable. -/
theorem run_naming_eq (name : String) (e : Eval Value) (tally : Tally) :
    (Store.naming name e).run tally = match e.run tally with
      | (.ok v, u) => (.ok v, u)
      | (.error f, u) => (.error (.within s!"variable {name}" f), u) := by
  simp only [Store.naming, ExceptT.run, tryCatch, tryCatchThe, MonadExceptOf.tryCatch,
    ExceptT.tryCatch, bind, StateT.bind, ExceptT.mk]
  obtain ⟨r, u⟩ := e tally
  cases r <;> rfl

/-- It has the values it has without the name. -/
theorem run_naming {name : String} {e : Eval Value} {v : Value} {tally tally' : Tally}
    (h : (Store.naming name e).run tally = (.ok v, tally')) : e.run tally = (.ok v, tally') := by
  rw [run_naming_eq] at h
  cases hrun : e.run tally with
  | mk r u =>
    rw [hrun] at h
    cases r with
    | ok b => exact h
    | error f => cases h

/-- What is loaded from a store is of the type asked for, if formulas give genuine values. -/
theorem Store.load_gives (honest : host.Honest) {s : Store} (h : s.Genuine host)
    {evaluate : Nat → Eval Value}
    (hevaluate : ∀ n tally tally' v, (evaluate n).run tally = (.ok v, tally') → v.Genuine host)
    (name : String) (t : Ty) :
    host.Gives t (s.load host evaluate name t) := by
  unfold load
  split
  · rename_i v hfind
    have hheld : v.held.Genuine host := by
      obtain ⟨e, he, rfl⟩ := Option.map_eq_some_iff.1 hfind
      exact h.entries e (List.mem_of_find?_eq_some he)
    cases hv : v.held with
    | value w =>
      rw [hv] at hheld
      exact coerce_gives honest hheld
    | formula n type =>
      exact .bind fun value tally tally' hvalue =>
        coerce_gives honest (hevaluate n _ _ _ (run_naming hvalue))
  · split
    · rename_i supply hsupply
      exact .bind fun value tally tally' hvalue =>
        coerce_gives honest (h.hooks.variableValue supply hsupply name t _ _ value
          (run_naming hvalue))
    · exact .failed

/-- What a function on demand gives is of the type asked for. -/
theorem Store.demand_gives (honest : host.Honest) {s : Store} (h : s.Genuine host)
    (name : String) (t : Ty) {args : List Value} (hargs : ∀ a ∈ args, a.Genuine host) :
    host.Gives t (s.demand host name t args) := by
  unfold demand
  split
  · rename_i call hcall
    exact .bind fun value tally tally' hvalue =>
      coerce_gives honest (h.hooks.functionCall call hcall name args _ _ value hargs hvalue)
  · exact .failed

/-- Imports whose members give values of the types they declare, at any depth. -/
def Imports.Honest (host : Host) (root : List Member) : Prop := ∀ m, Imported root m → m.Honest host

namespace Imports.Honest

/-- A member is reached from the first of the members, or from the others. -/
theorem imported_cons {m n : Member} {rest : List Member} :
    Imported (n :: rest) m ↔ m = n ∨ (∃ name members, n = .namespace name members ∧
      Imported members m) ∨ Imported rest m := by
  constructor
  · intro h
    induction h with
    | here h =>
      rcases List.mem_cons.1 h with rfl | h
      · exact .inl rfl
      · exact .inr (.inr (.here h))
    | within h hm ih =>
      rcases ih with rfl | ⟨name, members, rfl, hinner⟩ | hrest
      · exact .inr (.inl ⟨_, _, rfl, .here hm⟩)
      · exact .inr (.inl ⟨name, members, rfl, .within hinner hm⟩)
      · exact .inr (.inr (.within hrest hm))
  · rintro (rfl | ⟨name, members, rfl, h⟩ | h)
    · exact .here List.mem_cons_self
    · induction h with
      | here h => exact .within (.here List.mem_cons_self) h
      | within h hm ih => exact .within ih hm
    · induction h with
      | here h => exact .here (List.mem_cons_of_mem _ h)
      | within h hm ih => exact .within ih hm

theorem cons_iff {m : Member} {rest : List Member} : Imports.Honest host (m :: rest) ↔
    m.Honest host ∧ (∀ name members, m = .namespace name members → Imports.Honest host members) ∧
      Imports.Honest host rest := by
  constructor
  · intro h
    refine ⟨h m (imported_cons.2 (.inl rfl)), fun name members hm x hx => ?_, fun x hx => ?_⟩
    · exact h x (imported_cons.2 (.inr (.inl ⟨name, members, hm, hx⟩)))
    · exact h x (imported_cons.2 (.inr (.inr hx)))
  · rintro ⟨hm, hinner, hrest⟩ x hx
    rcases imported_cons.1 hx with rfl | ⟨name, members, hname, hx⟩ | hx
    · exact hm
    · exact hinner name members hname x hx
    · exact hrest x hx

theorem nil : Imports.Honest host [] := by
  intro m h
  have hnot : ∀ x, ¬Imported [] x := by
    intro x hx
    induction hx with
    | here h => cases h
    | within _ _ ih => exact ih
  exact absurd h (hnot m)

theorem append {a b : List Member} (ha : Imports.Honest host a) (hb : Imports.Honest host b) :
    Imports.Honest host (a ++ b) := by
  induction a with
  | nil => exact hb
  | cons m a ih =>
    obtain ⟨hm, hinner, hrest⟩ := cons_iff.1 ha
    exact cons_iff.2 ⟨hm, hinner, ih hrest⟩

theorem within {change : List Member → List Member}
    (hchange : ∀ members, Imports.Honest host members →
      Imports.Honest host (change members)) (name : String)
    {root : List Member} (h : Imports.Honest host root) :
    Imports.Honest host (Imports.within name change root) := by
  have hspace : ∀ {n : String} {members rest : List Member}, Imports.Honest host members →
    Imports.Honest host rest →
      Imports.Honest host (.namespace n (change members) :: rest) := by
    intro n members rest hmembers hrest
    refine cons_iff.2 ⟨trivial, ?_, hrest⟩
    rintro _ _ ⟨⟩
    exact hchange _ hmembers
  induction root with
  | nil => exact hspace nil nil
  | cons m rest ih =>
    obtain ⟨hm, hinner, hrest⟩ := cons_iff.1 h
    unfold Imports.within
    split
    · split
      · exact hspace (hinner _ _ rfl) hrest
      · exact cons_iff.2 ⟨hm, hinner, ih hrest⟩
    · exact cons_iff.2 ⟨hm, hinner, ih hrest⟩

/-- Imports with honest members added somewhere. -/
theorem add {additions : List (Except String Member)}
    (hadditions : Imports.Honest host (Imports.accepted additions).1)
    (path : List String) {root : List Member} (h : Imports.Honest host root) :
    Imports.Honest host (Imports.add path additions root).1 := by
  show Imports.Honest host (Imports.withinPath path (· ++ (Imports.accepted additions).1) root)
  induction path generalizing root with
  | nil => exact h.append hadditions
  | cons name path ih => exact h.within (fun members hmembers => ih hmembers) name

end Imports.Honest

/-- What is handed over for registration gives values of the type it declares, if it is a
function. -/
def Registrant.Honest (host : Host) : Registrant → Prop
  | .function f => f.Honest host
  | .other _ => True

inductive Operators.Registers (host : Host) : (Operators → Except String Operators) → Prop
  | binary (op : Operator) {r : Registrant} (h : r.Honest host) : Registers host fun ops =>
    ops.addBinary op r
  | unary (op : Operator) {r : Registrant} (h : r.Honest host) : Registers host fun ops =>
    ops.addUnary op r
  | implicit {r : Registrant} (h : r.Honest host) : Registers host fun ops => ops.addImplicit r
  | explicit {r : Registrant} (h : r.Honest host) : Registers host fun ops => ops.addExplicit r

namespace Operators

theorem honest_of_checkFunction {n : Nat} {r : Registrant} {f : Function} (hr : r.Honest host)
    (h : checkFunction n r = .ok f) : f.Honest host := by
  cases r with
  | other t => cases h
  | function g =>
    unfold checkFunction at h
    dsimp only at h
    split at h
    · cases h
    · split at h
      · cases h
      · cases h
        exact hr

theorem Registers.honest {f : Operators → Except String Operators} (hf : Registers host f)
    {ops ops' : Operators}
    (h : ops.Honest host) (hops : f ops = .ok ops') : ops'.Honest host := by
  cases hf with
  | binary op hr =>
    unfold addBinary at hops
    split at hops
    · cases hops
    · split at hops
      · cases hops
      · rename_i g hg
        cases hops
        refine { h with binary := fun op' g' hmem => ?_ }
        rcases List.mem_append.1 hmem with hmem | hmem
        · exact h.binary op' g' hmem
        · cases List.mem_singleton.1 hmem
          exact honest_of_checkFunction hr hg
  | unary op hr =>
    unfold addUnary at hops
    split at hops
    · cases hops
    · split at hops
      · cases hops
      · rename_i g hg
        cases hops
        refine { h with unary := fun op' g' hmem => ?_ }
        rcases List.mem_append.1 hmem with hmem | hmem
        · exact h.unary op' g' hmem
        · cases List.mem_singleton.1 hmem
          exact honest_of_checkFunction hr hg
  | implicit hr =>
    unfold addImplicit at hops
    split at hops
    · cases hops
    · rename_i g hg
      cases hops
      refine { h with implicit := fun g' hmem => ?_ }
      rcases List.mem_cons.1 hmem with rfl | hmem
      · exact honest_of_checkFunction hr hg
      · exact h.implicit g' hmem
  | explicit hr =>
    unfold addExplicit at hops
    split at hops
    · cases hops
    · rename_i g hg
      cases hops
      refine { h with explicit := fun g' hmem => ?_ }
      rcases List.mem_cons.1 hmem with rfl | hmem
      · exact honest_of_checkFunction hr hg
      · exact h.explicit g' hmem

end Operators

structure Context.Honest (host : Host) (c : Context) : Prop where
  imports : Imports.Honest host c.imports
  operators : c.operators.Honest host
  owner : c.owner.Genuine host

/-- A context of the usual options, without imports and overloads. -/
def Context.usual : Context where
  options := {}
  lexer := .ofOptions {}

theorem Context.parse_eq_ok {c : Context} {text : Text} {tree : Grammar.Tree} :
    c.parse text = .ok tree ↔ Grammar.parse c.lexer text = .ok tree := mapError_eq_ok

theorem Context.usual_honest : Context.usual.Honest .bare :=
  ⟨.nil, ⟨nofun, nofun, nofun, nofun⟩, trivial⟩

end Formulary
