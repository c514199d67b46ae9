import Formulary.Proofs.Build.Relexed
import Formulary.Proofs.Grammar.Acceptance
import Formulary.Proofs.Grammar.Steering
import Formulary.Proofs.Session.Supply

/-!
# Lexical settings wait for the next lexer

Until the lexer of a context is rebuilt, its lexical settings change what a text is compiled to only
through the real numbers and dates it is written with: these are read by the decimal point and the
date format that are set at the time. Digit rules, separators and depths change nothing, and a lexer
that cannot be rebuilt changes nothing either.
-/

namespace Formulary

theorem isOk_map {ε α β : Type} (f : α → β) (x : Except ε α) : (x.map f).isOk = x.isOk := by
  cases x <;> rfl

def Options.relexed (g : Lexical.Options → Lexical.Options) (o : Options) : Options :=
  { o with lexical := g o.lexical }

/-- A text whose literals two lexical settings read alike. -/
def Context.ReadsAlike (c : Context) (l l' : Lexical.Options) (text : Text) : Prop :=
  ∀ t ∈ (c.lexer.tokenize text).1, Build.ReadAlike l l' t.kind t.image

namespace Context

variable {c : Context} {host : Host} {store : Store} {o : Options}
  {l : Lexical.Options} {text : Text}

theorem leaves_of_parse {tree : Grammar.Tree} (h : c.parse text = .ok tree) :
    tree.leaves = (c.lexer.tokenize text).1 :=
  (Grammar.parse_sound (parse_eq_ok.1 h)).2.1

theorem element_relexed (h : c.ReadsAlike o.lexical l text) :
    c.element host store { o with lexical := l } text = c.element host store o text := by
  have hscope : c.scope host store { o with lexical := l } =
      Build.Scope.relexed (c.scope host store o) l := rfl
  simp only [element, hscope, Build.implicit_relexed]
  cases htree : c.parse text with
  | error fault => simp only [bind, Except.bind]
  | ok tree =>
    have halike : ∀ t ∈ tree.leaves, Build.ReadAlike o.lexical l t.kind t.image := by
      rw [leaves_of_parse htree]
      exact h
    have hroot : Build.element (Build.Scope.relexed (c.scope host store o) l) tree =
        Build.element (c.scope host store o) tree := Build.element_relexed halike
    simp only [bind, Except.bind, hroot]

/-- A text whose literals are read alike is compiled alike. -/
theorem compile_relexed (h : c.ReadsAlike o.lexical l text) :
    c.compile host store { o with lexical := l } text = c.compile host store o text := by
  unfold compile
  rw [element_relexed h]

end Context

inductive Relexing where
  | settings (n : Nat) (g : Lexical.Options → Lexical.Options)
  | rebuild (n : Nat)

namespace Workspace

/-- What a text is compiled to in a context, with options changed for this text only. -/
def outcome (w : Workspace) (n : Nat) (f : Options → Options) (text : Text) :
    Except Failure (Option Compiled) :=
  (w.compile n f text).map fun r => (r.2.expressions[r.1]?).map (·.compiled)

theorem outcome_eq {w : Workspace} {n : Nat} {c : Context} (hc : w.contexts[n]? = some c)
    (f : Options → Options) (text : Text) :
    w.outcome n f text = (c.compile w.host w.store (f c.options) text).map some := by
  simp only [outcome, compile, hc]
  cases c.compile w.host w.store (f c.options) text with
  | error fault => rfl
  | ok compiled =>
    have hpushed : ∀ home : Nat × Workspace,
        ((home.2.expressions.push ⟨compiled, home.1, c.owner⟩)[home.2.expressions.size]?).map
          (·.compiled) =
          some compiled := by
      intro home
      rw [Array.getElem?_push_size]
      rfl
    exact congrArg Except.ok (hpushed (if (f c.options).shared then (n, w) else w.cloneContext n))

/-- One step. A lexer that cannot be rebuilt is left as it is. -/
def relex (w : Workspace) : Relexing → Workspace
  | .settings n g => w.setOptions n (.relexed g)
  | .rebuild n => (w.rebuildLexer n).toOption.getD w

def relexed (w : Workspace) (steps : List Relexing) : Workspace := steps.foldl relex w

/-- Whether no step rebuilds the lexer of a context: every try fails. -/
def Unbuilt (n : Nat) (w : Workspace) : List Relexing → Prop
  | [] => True
  | step :: steps => (step = .rebuild n → ∃ fault, w.rebuildLexer n = .error fault) ∧
      Unbuilt n (w.relex step) steps

structure Resembles (n : Nat) (c : Context) (w w' : Workspace) : Prop where
  host : w'.host = w.host
  store : w'.store = w.store
  context : ∃ l, w'.contexts[n]? = some { c with options := { c.options with lexical := l } }

section Steps

variable {w w' : Workspace} {n : Nat} {c : Context}

/-- A change of another context leaves a context as it is. -/
theorem contexts_changeContext_of_ne {m : Nat} (hne : m ≠ n) (f : Context → Context) :
    (w.changeContext m f).contexts[n]? = w.contexts[n]? := by
  rw [changeContext, Array.getElem?_modify, if_neg hne]

theorem Resembles.settings (h : w.Resembles n c w') (m : Nat)
    (g : Lexical.Options → Lexical.Options) :
    w.Resembles n c (w'.setOptions m (.relexed g)) := by
  obtain ⟨l, hl⟩ := h.context
  unfold setOptions
  split
  · exact h
  · rename_i c' hc'
    refine ⟨h.host, ?_, ?_⟩
    · simp only [Options.relexed, beq_self_eq_true, if_true]
      exact h.store
    · by_cases hm : m = n
      · subst hm
        rw [hl] at hc'
        cases hc'
        exact ⟨g l, by simp only [changeContext, Array.getElem?_modify, if_true, hl]; rfl⟩
      · exact ⟨l, (contexts_changeContext_of_ne hm _).trans hl⟩

theorem Resembles.rebuild (h : w.Resembles n c w') {m : Nat}
    (hfails : m = n → ∃ fault, w'.rebuildLexer n = .error fault) :
    w.Resembles n c ((w'.rebuildLexer m).toOption.getD w') := by
  by_cases hm : m = n
  · subst hm
    obtain ⟨fault, hfault⟩ := hfails rfl
    rw [hfault]
    exact h
  · obtain ⟨l, hl⟩ := h.context
    unfold rebuildLexer
    split
    · exact h
    · rename_i c' _
      cases c'.withLexer with
      | error fault => exact h
      | ok c'' => exact ⟨h.host, h.store, l, (contexts_changeContext_of_ne hm _).trans hl⟩

/-- One step leaves all but the lexical settings as it is. -/
theorem Resembles.relex (h : w.Resembles n c w') {step : Relexing}
    (hfails : step = .rebuild n → ∃ fault, w'.rebuildLexer n = .error fault) :
    w.Resembles n c (w'.relex step) := by
  cases step with
  | settings m g => exact h.settings m g
  | rebuild m => exact h.rebuild fun hm => hfails (by rw [hm])

/-- So do several steps. -/
theorem Resembles.relexed (h : w.Resembles n c w') {steps : List Relexing}
    (hsteps : Unbuilt n w' steps) :
    w.Resembles n c (w'.relexed steps) := by
  induction steps generalizing w' with
  | nil => exact h
  | cons step steps ih => exact ih (h.relex hsteps.1) hsteps.2

end Steps

/-- Settings that no lexer can have: one character is the decimal point and the separator. -/
def ambiguous (l : Lexical.Options) : Lexical.Options :=
  { l with decimalPoint := 0x3B, separator := 0x3B, maxDepth := 1 }

theorem readsAlike_product : Context.usual.ReadsAlike {} (ambiguous {})
    (Text.ofString "2 * 1.5") := by
  have htokens :
      ((Context.usual.lexer.tokenize (Text.ofString "2 * 1.5")).1.all fun t =>
        t.kind != .dateTime &&
          decide (Build.realBody {} t.image false = Build.realBody (ambiguous {}) t.image false)) =
      true := by
    rw [Lexical.tokenize_standing]
    decide +kernel
  intro t ht
  have halike := List.all_eq_true.1 htokens t ht
  rw [Bool.and_eq_true, decide_eq_true_iff, bne_iff_ne] at halike
  unfold Build.ReadAlike
  split
  · exact halike.2
  · rename_i hdate
    exact absurd hdate halike.1
  · trivial

/-- However the lexical settings of a workspace are changed, as long as the lexer of a context is
not rebuilt and in whatever settings are given along with a text: the text is compiled to what it
was compiled to before, or fails with the same words, if the settings read its real numbers and
dates alike. -/
theorem outcome_unbuilt {w : Workspace} {n : Nat} {c c' : Context} {steps : List Relexing}
    {g : Lexical.Options → Lexical.Options} {text : Text} (hc : w.contexts[n]? = some c)
    (hsteps : Unbuilt n w steps) (hc' : (w.relexed steps).contexts[n]? = some c')
    (halike : c.ReadsAlike c.options.lexical (g c'.options.lexical) text) :
    (w.relexed steps).outcome n (.relexed g) text = w.outcome n id text := by
  have hsame : w.Resembles n c w := ⟨rfl, rfl, c.options.lexical, hc⟩
  obtain ⟨hhost, hstore, l, hl⟩ := hsame.relexed hsteps
  rw [hc'] at hl
  cases hl
  rw [outcome_eq hc', outcome_eq hc, hhost, hstore]
  exact congrArg (Except.map some) (Context.compile_relexed halike)

/-- A product means what it meant after settings that no lexer can have, and after one was asked
for. -/
theorem outcome_product_unbuilt :
    (∃ fault, ((create .bare .usual).relexed [.settings 0 ambiguous]).rebuildLexer
      0 = .error fault) ∧
      ((create .bare .usual).relexed [.settings 0 ambiguous, .rebuild 0]).outcome 0 (.relexed id)
        (Text.ofString "2 * 1.5") =
        (create .bare .usual).outcome 0 id (Text.ofString "2 * 1.5") := by
  have hfails : ∃ fault, ((create .bare .usual).relexed [.settings 0 ambiguous]).rebuildLexer 0 =
    .error fault := ⟨_, rfl⟩
  exact ⟨hfails, outcome_unbuilt rfl ⟨nofun, fun _ => hfails, trivial⟩ rfl readsAlike_product⟩

/-- Settings with dates that start with the year. -/
def yearFirst (l : Lexical.Options) : Lexical.Options :=
  { l with dateFormat := Text.ofString "yyyy-MM-dd" }

/-- A date is read by the format that is set, whatever format its lexer was built with. -/
theorem outcome_date_unbuilt :
    ((create .bare .usual).relexed [.settings 0 yearFirst]).outcome 0 id
      (Text.ofString "#05/03/2024#") ≠
      (create .bare .usual).outcome 0 id (Text.ofString "#05/03/2024#") := by
  have hcontext : ((create .bare .usual).relexed [.settings 0 yearFirst]).contexts[0]? =
      some { Context.usual with options := Context.usual.options.relexed yearFirst } := rfl
  have hafter := outcome_eq hcontext id (Text.ofString "#05/03/2024#")
  have hbefore := outcome_eq (show (create .bare .usual).contexts[0]? = some Context.usual from rfl)
    id (Text.ofString "#05/03/2024#")
  have hdiffer : ((create .bare .usual).outcome 0 id (Text.ofString "#05/03/2024#")).isOk = true ∧
      (((create .bare .usual).relexed [.settings 0 yearFirst]).outcome 0 id
        (Text.ofString "#05/03/2024#")).isOk = false := by
    rw [hafter, hbefore, isOk_map, isOk_map]
    unfold Context.compile Context.element Context.parse
    rw [Grammar.parse_standing]
    decide +kernel
  intro heq
  rw [heq, hdiffer.1] at hdiffer
  cases hdiffer.2

end Workspace

end Formulary
