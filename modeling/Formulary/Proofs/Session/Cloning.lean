import Formulary.Proofs.Session.Isolation
import Formulary.Proofs.Session.Relexing

/-!
# Options for one text and options of a clone

A text that is compiled with options of its own is compiled as it is in a clone of the context with
these options set, but for one thing: only options that are set put the variables under the case
rule that they ask for. The two differ in nothing if the names that the text starts its chains with
have variables of the same types under both case rules.
-/

namespace Formulary

namespace Workspace

/-- What a text is compiled to in a clone of a context with options set on the clone. -/
def cloneOutcome (w : Workspace) (n : Nat) (f : Options → Options) (text : Text) :
    Except Failure (Option Compiled) :=
  let (m, w) := w.cloneContext n
  (w.setOptions m f).outcome m id text

/-- The variables as options that are set leave them. -/
def recased (w : Workspace) (o o' : Options) : Store :=
  if o'.caseSensitive == o.caseSensitive then w.store else w.store.withCaseRule o'.caseSensitive

section Clones

variable {w : Workspace} {n : Nat} {c : Context}

/-- A clone compiles by the options that are set on it, with the variables as these leave them. -/
theorem cloneOutcome_eq (hc : w.contexts[n]? = some c) (f : Options → Options) (text : Text) :
    w.cloneOutcome n f text =
      (c.compile w.host (w.recased c.options (f c.options)) (f c.options) text).map some := by
  have hclone : w.cloneContext n = (w.contexts.size, { w with contexts := w.contexts.push c }) := by
    rw [cloneContext, hc]
  have hpushed : (w.contexts.push c)[w.contexts.size]? = some c := Array.getElem?_push_size
  have hset :
      ((w.contexts.push c).modify w.contexts.size
        fun c' => { c' with options := f c.options })[w.contexts.size]? =
      some { c with options := f c.options } := by
    simp only [Array.getElem?_modify, if_true, hpushed, Option.map_some]
  simp only [cloneOutcome, hclone, setOptions, hpushed]
  exact outcome_eq (w := { w with contexts := _, store := w.recased c.options (f c.options) })
    hset id text

theorem hooks_recased (w : Workspace) (o o' : Options) :
    (w.recased o o').hooks = w.store.hooks := by
  unfold recased
  split
  · rfl
  · exact Store.hooks_withCaseRules w.store [o'.caseSensitive]

/-- A name that is spelled like its variable has it under both case rules. -/
theorem typeOf?_recased (h : w.store.Consistent w.host) {name : String}
    (hname : w.store.Spells name) (o o' : Options) :
    (w.recased o o').typeOf? name = w.store.typeOf? name := by
  unfold recased
  split
  · rfl
  · rw [Store.typeOf?, Store.typeOf?, h.find?_withCaseRule hname]

end Clones

section Recased

/-- A workspace with a price. -/
def pricing : Workspace := { create .bare .usual with store := priced 2 }

def shouted : Text := Text.ofString "PRICE"

/-- Whether a name is refused because it is not defined. -/
def isUndefined (r : Except Failure (Option Compiled)) : Bool :=
  match r with
  | .error (.compile e) => e.reason == .undefinedName
  | _ => false

end Recased

/-- Whatever options are given along with a text, it is compiled as it is in a clone of the context
on which they are set: to the same, or with a failure of the same reason, place and token. It is so
if the options leave the case rule as it is, and also if the names that the text starts its chains
with are spelled as variables were defined; in general, if these names have variables of the same
types under the case rule of the store and under that of the options. -/
theorem outcome_cloned (w : Workspace) (n : Nat) {c : Context} (hc : w.contexts[n]? = some c)
    (f : Options → Options)
    (text : Text) (h : (∀ name ∈ c.firstNames text,
      (w.recased c.options (f c.options)).typeOf? name = w.store.typeOf? name) ∨
      (f c.options).caseSensitive = c.options.caseSensitive ∨
      w.store.Consistent w.host ∧ ∀ name ∈ c.firstNames text, w.store.Spells name) :
    (w.cloneOutcome n f text).mapError Failure.wordless =
      (w.outcome n f text).mapError Failure.wordless := by
  have htypes : ∀ name ∈ c.firstNames text, (w.recased c.options (f c.options)).typeOf? name =
      w.store.typeOf? name := by
    rcases h with htypes | hrule | ⟨hstore, hspells⟩
    · exact htypes
    · intro name _
      rw [recased, hrule, beq_self_eq_true, if_pos rfl]
    · exact fun name hname => typeOf?_recased hstore (hspells name hname) _ _
  rw [cloneOutcome_eq hc, outcome_eq hc]
  exact (mapError_wordless_bind (Context.compile_storing (hooks_recased w _ _) htypes) fun x =>
    .ok (some x)).symm

/-- A price that is spelled as it was defined is compiled alike when the case of names begins to
matter. -/
theorem outcome_raised_cloned : (sensitive Context.usual.options).caseSensitive ≠
    Context.usual.options.caseSensitive ∧
    (pricing.cloneOutcome 0 sensitive raised).mapError Failure.wordless =
      (pricing.outcome 0 sensitive raised).mapError Failure.wordless := by
  have hspells : ∀ name ∈ Context.usual.firstNames raised, pricing.store.Spells name := by
    intro name hname
    rw [firstNames_raised, List.mem_singleton] at hname
    rw [hname]
    exact priced_spells 2
  exact ⟨by decide, outcome_cloned pricing 0 (c := .usual) rfl sensitive raised (.inr
    (.inr ⟨priced_consistent, hspells⟩))⟩

/-- Options that come along with a price in capitals find it, and options that are set on a clone do
not. -/
theorem outcome_shouted_cloned : (pricing.outcome 0 sensitive shouted).isOk = true ∧
    isUndefined (pricing.cloneOutcome 0 sensitive shouted) = true := by
  have hctx : pricing.contexts[0]? = some Context.usual := rfl
  rw [outcome_eq hctx, cloneOutcome_eq hctx]
  obtain ⟨hnames, hfound, hmissed⟩ : Context.usual.firstNames shouted = ["PRICE"] ∧
      (Context.usual.compile .bare (pricedAs "PRICE" 2) (sensitive Context.usual.options)
        shouted).toOption.isSome = true ∧
      isUndefined ((Context.usual.compile .bare
        (pricing.recased Context.usual.options (sensitive Context.usual.options))
        (sensitive Context.usual.options) shouted).map some) = true := by
    rw [Context.firstNames, Context.compile, Context.compile, Context.element,
      Context.element, Context.parse, Grammar.parse_standing]
    decide +kernel
  rw [← compile_pricedAs key_capital hnames, isSome_toOption] at hfound
  exact ⟨(isOk_map some _).trans hfound, hmissed⟩

end Workspace

end Formulary
