import Formulary.Proofs.Build.Enclosed
import Formulary.Proofs.Session.Exactness

/-!
# Texts with more parentheses

A text that compiles is compiled to the same with one more pair of parentheses, wherever these only
repeat how the text is read anyway: around any operands with their operators, around a chain of
names, or around a whole expression; and around the first operands of a level, which are calculated
from the left.
-/

namespace Formulary.Context

open Build (enclosing groups)

variable {c : Context} {host : Host} {store : Store} {o : Options} {text text' : Text}

/-- Texts whose trees are built to the same are compiled to the same. -/
theorem compile_of_trees {tree tree' : Grammar.Tree} (htree : c.parse text = .ok tree)
    (htree' : c.parse text' = .ok tree')
    (hsame : ∀ e, Build.element (c.scope host store o) tree = .ok e →
      Build.element (c.scope host store o) tree' = .ok e)
    {x : Compiled} (h : c.compile host store o text = .ok x) :
    c.compile host store o text' = .ok { x with text := text' } := by
  obtain ⟨root, hroot, h⟩ := bind_eq_ok.1 h
  have hroot' : c.element host store o text' = .ok root := by
    obtain ⟨tree₀, htree₀, hroot⟩ := bind_eq_ok.1 hroot
    obtain rfl : tree = tree₀ := Except.ok.inj (htree.symm.trans htree₀)
    obtain ⟨inner, hinner, hroot⟩ := bind_eq_ok.1 hroot
    exact bind_eq_ok.2 ⟨tree', htree', bind_eq_ok.2 ⟨inner, hsame inner hinner, hroot⟩⟩
  refine bind_eq_ok.2 ⟨root, hroot', ?_⟩
  split at h
  · rename_i program hprogram
    cases h
    rfl
  · cases h

section Differences

/-- Two differences, one after the other. -/
def differences : Text := Text.ofString "8-3-2"

def differencesEnclosed : Text := Text.ofString "(8-3)-2"

theorem exists_differences : ∃ tree, Context.usual.parse differences = .ok tree ∧
    ∃ ts ∈ groups tree, enclosing differences ts = differencesEnclosed := by
  have hfound : ((Context.usual.parse differences).toOption.any fun tree =>
    (groups tree).any fun ts =>
      enclosing differences ts == differencesEnclosed) = true := by
    rw [Context.parse, Grammar.parse_standing]
    decide +kernel
  obtain ⟨tree, htree, hfound⟩ := exists_ok_of_any hfound
  obtain ⟨ts, hts, heq⟩ := List.any_eq_true.1 hfound
  exact ⟨tree, htree, ts, hts, beq_iff_eq.1 heq⟩

end Differences

/-- Where points are decimal points and commas are separators: a text that compiles is compiled to
the same program and the same type with parentheses around any part of it that can be put in them,
unless they nest too deeply. -/
theorem compile_enclosing {lexical : Lexical.Options} (hlexer : c.lexer = .ofOptions lexical)
    (hpoint : lexical.decimalPoint = 0x2E) (hcomma : lexical.separator = 0x2C) {x : Compiled}
    (h : c.compile host store o text = .ok x) {tree : Grammar.Tree}
    (htree : c.parse text = .ok tree) {ts : List Grammar.Tree} (hts : ts ∈ groups tree)
    (hdepth : ∀ limit place, Grammar.parse c.lexer (enclosing text ts) ≠
      .error (.tooDeep limit place)) :
    c.compile host store o (enclosing text ts) = .ok { x with text := enclosing text ts } := by
  rw [hlexer] at hdepth
  have hparse := parse_eq_ok.1 htree
  rw [hlexer] at hparse
  rcases Build.element_enclosing hpoint hcomma hparse hts with
    ⟨limit, place, hdeep⟩ | ⟨tree', hparse', hsame⟩
  · exact absurd hdeep (hdepth limit place)
  · rw [← hlexer] at hparse'
    exact compile_of_trees htree (parse_eq_ok.2 hparse') (hsame _) h

/-- Of two differences the first one may stand in parentheses. -/
theorem compile_differences_enclosing : ∃ x, Context.usual.compile .bare {} {} differences = .ok x ∧
    Context.usual.compile .bare {} {} differencesEnclosed =
      .ok { x with text := differencesEnclosed } := by
  obtain ⟨tree, htree, ts, hts, henclosed⟩ := exists_differences
  have hcompiles : (Context.usual.compile .bare {} {} differences).isOk = true := by
    rw [Context.compile, Context.element, Context.parse, Grammar.parse_standing]
    decide +kernel
  have hparses : (Grammar.parse Context.usual.lexer differencesEnclosed).isOk = true := by
    rw [Grammar.parse_standing]
    decide +kernel
  obtain ⟨x, hx⟩ := exists_ok_iff_isOk.2 hcompiles
  obtain ⟨tree', htree'⟩ := exists_ok_iff_isOk.2 hparses
  have hdepth : ∀ limit place,
      Grammar.parse Context.usual.lexer (enclosing differences ts) ≠
        .error (.tooDeep limit place) := by
    intro limit place hdeep
    rw [henclosed, htree'] at hdeep
    cases hdeep
  have hlexer : Context.usual.lexer = .ofOptions {} := rfl
  have hcompile := compile_enclosing hlexer rfl rfl hx htree hts hdepth
  rw [henclosed] at hcompile
  exact ⟨x, hx, hcompile⟩

end Formulary.Context
