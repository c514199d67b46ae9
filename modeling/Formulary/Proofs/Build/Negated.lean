import Formulary.Proofs.Build.Agreement
import Formulary.Proofs.Build.Likeness
import Formulary.Proofs.Grammar.Neighbours
import Formulary.Proofs.Lexical.Pointed

/-!
# The element of a text behind a minus sign

The tree of `-(t)` is that of `t`, moved, within a pair of parentheses, a minus sign, and the forms
of the other operators, which only pass it on. So it is built to what the minus sign makes of the
element of `t`.
-/

namespace Formulary

open Grammar (Form Grows Rule Tree expressionGrammar expressionRules many maybeTok one
  shown spliced tok)
open Lexical (Kind Lexer Place Token)

namespace Grammar

/-- Where the parenthesis is a decimal point, a text that starts with a digit is none in
parentheses: either a literal stands before what cannot follow one, or the parenthesis at the end
closes nothing. -/
theorem digits_of_parse {o : Lexical.Options} (hvalid : o.fault? = none) {text : Text} {t t' : Tree}
    (h : parse (.ofOptions o) text = .ok t)
    (h' : parse (.ofOptions o) (Lexical.negated text) = .ok t')
    (hpoint : o.decimalPoint = 0x28) (hrequire : o.requireDigits = false) :
    Lexical.run Text.isAsciiDigit text.glyphs = 0 := by
  by_contra hdigits
  obtain ⟨-, -, hderives⟩ := parse_sound h
  obtain ⟨-, -, hderives'⟩ := parse_sound h'
  rw [Lexical.kinds_tokenize] at hderives hderives'
  obtain ⟨ks, hks, ⟨k, hk, htext⟩ | ⟨k, hk, hhead⟩⟩ :=
    Lexical.kinds_pointed hvalid hpoint hrequire text hdigits
  · rw [htext] at hderives
    rw [hks] at hderives'
    have hclosed := openness_eq_zero hderives
    have hopen := openness_eq_zero hderives'
    have hnumber : opens k = 0 := by rcases hk with rfl | rfl <;> rfl
    have hlast : openness [Kind.parenClose] = -1 := rfl
    rw [openness_cons, hnumber] at hclosed
    rw [openness_cons, openness_cons, openness_append, hlast] at hopen
    simp only [opens] at hopen
    omega
  · rw [hks] at hderives'
    have hborder := hderives'.bordered.2.1 (by decide)
    rw [List.head?_append, hhead, Option.some_or, Option.getD_some] at hborder
    rcases hk with rfl | rfl | rfl <;> revert hborder <;> decide

end Grammar

namespace Build

/-- One copy of a tree for an element that can stand once. -/
theorem grows_once {e : Grammar.Element} {id : Nat} {t : Tree} (hleast : e.least ≤ 1)
    (hmost : e.most = some 1)
    (he : e.target = .rule id) (h : Grows expressionGrammar (.rule id) [t])
    {es : List Grammar.Element} {ts : List Tree}
    (hrest : Grows expressionGrammar (.elements es) ts) :
    Grows expressionGrammar (.elements (e :: es)) (t :: ts) := by
  have hcopy := Grows.copy he h .none
  rw [List.append_nil] at hcopy
  exact .cons ⟨hleast, fun m hm => by rw [hmost] at hm; cases hm; exact Nat.le_refl 1⟩ hcopy hrest

/-- One token for an element that can stand once. -/
theorem grows_leaf {e : Grammar.Element} {t : Token} (hleast : e.least ≤ 1)
    (hmost : e.most = some 1)
    (he : e.target = .token t.kind) {es : List Grammar.Element} {ts : List Tree}
    (hrest : Grows expressionGrammar (.elements es) ts) :
    Grows expressionGrammar (.elements (e :: es)) (.leaf t :: ts) := by
  have htoken : Grows expressionGrammar (.copies e 1) [.leaf t] := .token he .none
  exact .cons ⟨hleast, fun m hm => by rw [hmost] at hm; cases hm; exact Nat.le_refl 1⟩ htoken hrest

section Levels

/-- A form that can consist of another one alone. -/
def Passes (inner outer : Form) : Prop :=
  ruleOf outer ∈ expressionRules ∧ (ruleOf outer).id = outer.number ∧
    (ruleOf outer).hidden = false ∧
    ∃ es ∈ (ruleOf outer).alternatives, es.filter (·.least != 0) = [one inner]

instance (inner outer : Form) : Decidable (Passes inner outer) :=
  inferInstanceAs (Decidable (_ ∧ _ ∧ _ ∧ _))

/-- The forms around a minus sign, from the inside. -/
def levels : List Form :=
  [.power, .product, .sum, .compare, .shift, .among, .not, .and, .or, .xor, .expression]

theorem levels_chain : (Form.negate :: levels).IsChain Passes := by decide

def wrapped (place : Place) : List Form → Tree → Tree
  | [], t => t
  | f :: fs, t => wrapped place fs (.node f.number (ruleOf f).name place [t])

theorem leaves_wrapped (place : Place) (fs : List Form) (t : Tree) :
    (wrapped place fs t).leaves = t.leaves := by
  induction fs generalizing t with
  | nil => rfl
  | cons f fs ih => rw [wrapped, ih, Tree.leaves, Tree.leavesOf, Tree.leavesOf, List.append_nil]

theorem place_wrapped {place : Place} (fs : List Form) {t : Tree} (h : t.place = place) :
    (wrapped place fs t).place = place := by
  induction fs generalizing t with
  | nil => exact h
  | cons f fs ih => exact ih rfl

theorem grows_wrapped {place : Place} {f : Form} {fs : List Form} {t : Tree}
    (hchain : (f :: fs).IsChain Passes) (hplace : ∀ u ∈ t.leaves.head?, u.place = place)
    (h : Grows expressionGrammar (.rule f.number) [t]) :
    Grows expressionGrammar (.rule ((f :: fs).getLast (List.cons_ne_nil f fs)).number)
      [wrapped place fs t] := by
  induction fs generalizing f t with
  | nil => exact h
  | cons outer fs ih =>
    obtain ⟨⟨hr, hid, hshown, es, hes, hneeded⟩, hchain⟩ := List.isChain_cons_cons.1 hchain
    have helements : Grows expressionGrammar (.elements es) [t] := by
      refine Grammar.grows_of_needed ?_
      rw [hneeded]
      exact grows_once (Nat.le_refl 1) rfl rfl h .nil
    have hleaves : ∀ u ∈ (Tree.leavesOf [t]).head?, u.place = place := by
      simpa [Tree.leavesOf] using hplace
    have hnode := Grows.rule hr hes helements hleaves
    rw [hid, hshown] at hnode
    exact ih hchain (by simpa [Tree.leaves] using hleaves) hnode

end Levels

def enclosed (opener close : Token) (t : Tree) : Tree :=
  .node Form.chain.number "MemberExpression" opener.place
    [.node Form.paren.number "ParenthesizedExpression" opener.place [.leaf opener, t, .leaf close]]

theorem leaves_enclosed (opener close : Token) (t : Tree) :
    (enclosed opener close t).leaves = opener :: (t.leaves ++ [close]) := by
  simp [enclosed, Tree.leaves, Tree.leavesOf]

theorem grows_enclosed {opener close : Token} {t : Tree} (hopen : opener.kind = .parenOpen)
    (hclose : close.kind = .parenClose) (h : Grows expressionGrammar
      (.rule Form.expression.number) [t]) :
    Grows expressionGrammar (.rule Form.chain.number) [enclosed opener close t] := by
  have hstarts : ∀ u ∈ (opener :: (t.leaves ++ [close])).head?, u.place = opener.place :=
    fun u hu => by cases hu; rfl
  have hparen : Grows expressionGrammar (.rule Form.paren.number)
      [.node Form.paren.number "ParenthesizedExpression" opener.place
        [.leaf opener, t, .leaf close]] := by
    refine .rule (r := shown .paren "ParenthesizedExpression"
      [[tok .parenOpen, one .expression, tok .parenClose]])
      (by decide) (List.mem_singleton.2 rfl) ?_ hstarts
    refine grows_leaf (Nat.le_refl 1) rfl (congrArg _ hopen.symm)
      (grows_once (Nat.le_refl 1) rfl rfl h ?_)
    exact grows_leaf (Nat.le_refl 1) rfl (congrArg _ hclose.symm) .nil
  have hbasic : Grows expressionGrammar (.rule Form.basic.number)
      [.node Form.paren.number "ParenthesizedExpression" opener.place
        [.leaf opener, t, .leaf close]] := by
    exact .rule
      (r := spliced .basic "BasicExpression" [[one .literal], [one .paren], [one .choice],
        [one .cast], [one .name]])
      (by decide) (List.mem_cons_of_mem _ List.mem_cons_self)
        (grows_once (Nat.le_refl 1) rfl rfl hparen .nil) hstarts
  exact .rule (r := shown .chain "MemberExpression" [[one .basic, many .chainTail]]) (by decide)
    (List.mem_singleton.2 rfl)
    (Grammar.grows_of_needed (grows_once (Nat.le_refl 1) rfl rfl hbasic .nil)) hstarts

/-- The tree of a text in parentheses behind a minus sign. -/
def negatedTree (close : Token) (t : Tree) : Tree :=
  wrapped Lexical.minusToken.place levels
    (.node Form.negate.number "NegateExpression" Lexical.minusToken.place
      [.leaf Lexical.minusToken,
        .node Form.chain.number "MemberExpression" Lexical.openToken.place
          [.node Form.paren.number "ParenthesizedExpression" Lexical.openToken.place
            [.leaf Lexical.openToken, t, .leaf close]]])

theorem leaves_negatedTree (close : Token) (t : Tree) :
    (negatedTree close t).leaves = Lexical.minusToken :: Lexical.openToken ::
      (t.leaves ++ [close]) := by
  rw [negatedTree, leaves_wrapped]
  simp [Tree.leaves, Tree.leavesOf]

theorem grows_negatedTree {close : Token} {t : Tree} (hclose : close.kind = .parenClose)
    (h : Grows expressionGrammar (.rule Form.expression.number) [t]) :
    Grows expressionGrammar (.rule Form.expression.number) [negatedTree close t] := by
  have hchain : Grows expressionGrammar (.rule Form.chain.number)
      [enclosed Lexical.openToken close t] :=
    grows_enclosed rfl hclose h
  refine grows_wrapped levels_chain (fun u hu => by cases hu; rfl) ?_
  refine .rule (r := shown .negate "NegateExpression" [[maybeTok .minus, one .chain]]) (by decide)
    (List.mem_singleton.2 rfl) ?_ (fun u hu => by cases hu; rfl)
  exact grows_leaf (Nat.zero_le 1) rfl rfl (grows_once (Nat.le_refl 1) rfl rfl hchain .nil)

/-- The tree of a text in parentheses behind a minus sign, if it has one. -/
theorem parse_negated {o : Lexical.Options} (hvalid : o.fault? = none) {text : Text} {t t' : Tree}
    (h : Grammar.parse (.ofOptions o) text = .ok t)
    (h' : Grammar.parse (.ofOptions o) (Lexical.negated text) = .ok t') :
    ∃ close, t' = negatedTree close (t.moved Place.inside) := by
  obtain ⟨hnone, hleaves, -⟩ := Grammar.parse_sound h
  have hread := Lexical.read_negated hvalid text (Grammar.digits_of_parse hvalid h h')
  rw [Grammar.read_of_tokenize hnone, ← hleaves] at hread
  generalize ((Lexer.ofOptions o).read text).2.place.inside = place at hread
  have htokens : (Lexer.ofOptions o).tokenize (Lexical.negated text) =
      ((negatedTree ⟨.parenClose, [0x29], place⟩ (t.moved Place.inside)).leaves, []) := by
    refine Grammar.tokenize_of_read ?_
    rw [hread, leaves_negatedTree, Tree.leaves_moved]
    simp [List.map_map, Function.comp_def, Lexical.Lexeme.moved, Tree.movedToken]
  refine ⟨_, Grammar.parse_eq_of_grows (by rw [htokens]) (grows_negatedTree rfl ?_)
    (by rw [htokens]) h'⟩
  exact (Grammar.parse_grows h).moved Place.inside

section Element

variable (s : Scope)

theorem Reference.image_id (r : Reference) : r.image id = r := by
  obtain ⟨name, args⟩ := r
  cases args <;> simp [Reference.image]

theorem Subject.image_id (x : Subject) : x.image id = x := by
  cases x <;> rfl

/-- Nothing is resolved by where it stands. -/
theorem mirrors_moved (f : Place → Place) : (resolutionOf s).Mirrors id f (resolutionOf s) := by
  constructor <;> intros <;> simp [Reference.image_id, Subject.image_id, funext Subject.image_id]
  rfl

theorem element_moved (f : Place → Place) (t : Tree) :
    (element s (t.moved f)).toOption = (element s t).toOption := by
  have hwalk := (mirrors_moved s f).element_image t
  rw [Option.map_id_apply] at hwalk
  rw [← Resolution.outcome_element, ← Resolution.outcome_element, toOption_outcome,
    toOption_outcome]
  exact hwalk

variable {s}

theorem element_eq_ok {t : Tree} {e : Element} (h : element s t = .ok e) :
    build s t = .ok (.value e) := by
  obtain ⟨a, ha, h⟩ := bind_eq_ok.1 h
  cases a <;> cases h
  exact ha

/-- A form that only passes a value on is built to it. -/
theorem build_wrapped {place : Place} {fs : List Form} (hfs : fs ⊆ .negate :: levels)
    {t : Tree} {e : Element}
    (h : build s t = .ok (.value e)) : build s (wrapped place fs t) = .ok (.value e) := by
  induction fs generalizing t with
  | nil => exact h
  | cons f fs ih =>
    have hf := hfs List.mem_cons_self
    refine ih (fun f hf => hfs (List.mem_cons_of_mem _ hf)) ?_
    simp only [levels, List.mem_cons, List.not_mem_nil, or_false] at hf
    rcases hf with rfl | rfl | rfl | rfl | rfl | rfl | rfl | rfl | rfl | rfl | rfl | rfl
    all_goals
      rw [build, buildAll, h]
      rfl

/-- A pair of parentheses passes a value on. -/
theorem build_enclosed {opener close : Token} {t : Tree} {e : Element}
    (h : build s t = .ok (.value e)) :
    build s (enclosed opener close t) = .ok (.value e) := by
  simp only [enclosed, build, buildAll, h]
  rfl

/-- The failure of a value is that of the forms that only pass the value on. -/
theorem build_wrapped_error (place : Place) (fs : List Form) {t : Tree} {g : Failure}
    (h : build s t = .error g) :
    build s (wrapped place fs t) = .error g := by
  induction fs generalizing t with
  | nil => exact h
  | cons f fs ih =>
    refine ih ?_
    rw [build, buildAll, h]
    rfl

/-- A minus sign before a tree in parentheses is applied to the element of the tree. -/
theorem minus_of_negatedTree {close : Token} {t : Tree} {e e' : Element} (h : element s t = .ok e)
    (h' : element s (negatedTree close t) = .ok e') : minus s e = .ok e' := by
  have hchain : build s (enclosed Lexical.openToken close t) = .ok (.value e) :=
    build_enclosed (element_eq_ok h)
  have hnegate : build s (.node Form.negate.number "NegateExpression" Lexical.minusToken.place
      [.leaf Lexical.minusToken, enclosed Lexical.openToken close t]) =
        placedAt Lexical.minusToken.place.offset ((minus s e).map .value) := by
    rw [build, buildAll, build, buildAll, hchain]
    rfl
  have hroot : negatedTree close t = wrapped Lexical.minusToken.place levels
      (.node Form.negate.number "NegateExpression" Lexical.minusToken.place
        [.leaf Lexical.minusToken, enclosed Lexical.openToken close t]) := rfl
  replace h' := element_eq_ok h'
  cases hminus : minus s e with
  | error g =>
    rw [hminus] at hnegate
    rw [hroot, build_wrapped_error Lexical.minusToken.place levels hnegate] at h'
    cases h'
  | ok e'' =>
    rw [hminus] at hnegate
    rw [hroot, build_wrapped (List.subset_cons_self _ _) hnegate] at h'
    cases h'
    rfl

/-- A text in parentheses behind a minus sign has the element that the sign makes of the element of
the text. -/
theorem minus_of_parse {o : Lexical.Options} (hvalid : o.fault? = none) {text : Text} {t t' : Tree}
    {e e' : Element} (h : Grammar.parse (.ofOptions o) text = .ok t)
    (h' : Grammar.parse (.ofOptions o) (Lexical.negated text) = .ok t')
    (he : element s t = .ok e) (he' : element s t' = .ok e') : minus s e = .ok e' := by
  obtain ⟨close, rfl⟩ := parse_negated hvalid h h'
  have hinner : element s (t.moved Place.inside) = .ok e := by
    rw [← toOption_eq_some, element_moved, he]
    rfl
  exact minus_of_negatedTree hinner he'

end Element

end Build

end Formulary
