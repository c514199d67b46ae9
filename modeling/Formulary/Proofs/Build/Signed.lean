import Formulary.Proofs.Build.Resolved
import Formulary.Proofs.Build.Negated
import Formulary.Proofs.Build.Reading
import Mathlib.Data.List.Chain

/-!
# A numeral as a whole text

A text that is one numeral, or one behind a minus sign, parses with fifteen levels of nesting: each
form on the way takes the one within it alone (`Parses.climb`). Its element is the numeral read with
or without the sign.
-/

namespace Formulary

open Grammar (Form Tree)
open Lexical (Kind Lexeme Lexer Place Token)

namespace Grammar

/-- The rules of expressions with what each can start with. -/
def table : Ready :=
  ⟨Form.expression.number, expressionRules.map Rule.steered⟩

/-- The trees that a tree puts into the one around it: a hidden rule leaves its children only. -/
def Tree.spliced (hidden : Bool) : Tree → List Tree
  | .leaf t => [.leaf t]
  | .node rule name place children => if hidden then children else [.node rule name place children]

section Elements

variable {g : Ready} {separator : Nat} {p : ReadyRule → State → Outcome (Option Tree)}
  {s s' : State} {e : ReadyElement}

def ReadyElement.skips (e : ReadyElement) (k : Kind) : Bool :=
  e.element.least == 0 && !e.first.contains k

theorem parseElement_skips (h : e.skips s.next.kind = true) (fuel : Nat) (children : List Tree) :
    parseElement g separator p e fuel 0 children s = .ok (children, s) := by
  obtain ⟨hleast, hfirst⟩ := Bool.and_eq_true_iff.1 h
  have hstop : (e.element.least ≤ 0 && !e.first.contains s.next.kind) = true := by
    rw [hfirst, Bool.and_true, decide_eq_true_eq]
    exact Nat.le_of_eq (eq_of_beq hleast)
  cases fuel with
  | zero => rfl
  | succ fuel => rw [parseElement, hstop, Bool.or_true, if_pos rfl]

theorem parseElements_skips {es : List ReadyElement} (h : es.all (·.skips s.next.kind) = true)
    (rest : List ReadyElement) (children : List Tree) :
    parseElements g separator p (es ++ rest) children s =
      parseElements g separator p rest children s := by
  induction es with
  | nil => rfl
  | cons e es ih =>
    obtain ⟨he, hes⟩ := Bool.and_eq_true_iff.1 h
    rw [List.cons_append, parseElements, parseElement_skips he]
    exact ih hes

/-- An element that has been parsed as often as it may stand. -/
theorem parseElement_full {n : Nat} (h : e.element.allows n = false) (fuel : Nat)
    (children : List Tree) :
    parseElement g separator p e fuel n children s = .ok (children, s) := by
  cases fuel with
  | zero => rfl
  | succ fuel => rw [parseElement, h, Bool.not_false, Bool.true_or, if_pos rfl]

/-- One copy of a token that stands at most once. -/
theorem parseElement_token {k : Kind} (htarget : e.element.target = .token k)
    (hmost : e.element.most = some 1) (hfirst : e.first.contains k = true) (hk : s.next.kind = k)
    (children : List Tree) (fuel : Nat) :
    parseElement g separator p e (fuel + 1) 0 children s =
      .ok (.leaf s.next :: children, s.advance) := by
  have hgoes :
      (!e.element.allows 0 || (e.element.least ≤ 0 && !e.first.contains s.next.kind)) = false := by
    rw [Element.allows, hmost, hk, hfirst]
    simp
  rw [parseElement, hgoes, if_neg Bool.false_ne_true, htarget]
  simp only [hk, BEq.rfl, if_true]
  exact parseElement_full (by rw [Element.allows, hmost]; rfl) fuel _

/-- One copy of a form that stands once. -/
theorem parseElement_once {f : Form} {r : ReadyRule} {t : Tree} (he : e.element = one f)
    (hfirst : e.first.contains s.next.kind = true) (hr : g.rule? f.number = some r)
    (h : p r s = .ok (some t, s'))
    (hoffset : s'.next.place.offset ≠ s.next.place.offset) (children : List Tree) (fuel : Nat) :
    parseElement g separator p e (fuel + 1) 0 children s =
      .ok ((t.spliced r.hidden).reverse ++ children, s') := by
  have hgoes :
      (!e.element.allows 0 || (e.element.least ≤ 0 && !e.first.contains s.next.kind)) = false := by
    rw [he, hfirst]
    rfl
  have htarget : e.element.target = .rule f.number := by
    rw [he]
    rfl
  have hfull : e.element.allows 1 = false := by
    rw [he]
    rfl
  rw [parseElement, hgoes, if_neg Bool.false_ne_true, htarget]
  simp only [hr, h]
  rw [if_neg (by simpa using hoffset)]
  cases t with
  | leaf => exact parseElement_full hfull fuel _
  | node => exact parseElement_full hfull fuel _

end Elements

section Climbing

/-- What a form parses to within a number of levels. -/
def Parses (separator depth : Nat) (f : Form) (s : State) (t : Tree) (s' : State) : Prop :=
  ∃ r, table.rule? f.number = some r ∧ r.hidden = (Build.ruleOf f).hidden ∧
    parseRule table separator depth r s = .ok (some t, s')

/-- The elements that a form consists of where it starts with a kind of token. -/
def elementsFrom? (k : Kind) (f : Form) : Option (List ReadyElement) :=
  (table.rule? f.number).bind fun r =>
    if r.id = f.number ∧ r.name = (Build.ruleOf f).name ∧ r.hidden = (Build.ruleOf f).hidden then
      (chooseAlternative r k).map (·.elements)
    else none

/-- Whether a form can consist of another one alone, in a text that starts with a kind of token and
ends behind it. -/
def lifts (k : Kind) (inner outer : Form) : Bool :=
  (elementsFrom? k outer).any fun es =>
    match es.dropWhile (·.skips k) with
    | e :: rest => e.element == one inner && e.first.contains k && rest.all (·.skips .eof)
    | [] => false

def grown (place : Place) : Form → List Form → Tree → Tree
  | _, [], t => t
  | f, outer :: fs, t =>
    grown place outer fs (.node outer.number (Build.ruleOf outer).name place
      (t.spliced (Build.ruleOf f).hidden))

variable {separator d : Nat} {s s' : State} {t : Tree} {k : Kind}

theorem Parses.of_elements {f : Form} {es : List ReadyElement} {children : List Tree}
    (hes : elementsFrom? s.next.kind f = some es)
    (h : parseElements table separator (parseRule table separator d) es [] s = .ok (children, s')) :
    Parses separator (d + 1) f s (.node f.number (Build.ruleOf f).name s.next.place
      children.reverse) s' := by
  obtain ⟨r, hr, hes⟩ := Option.bind_eq_some_iff.1 hes
  obtain ⟨⟨hid, hname, hhidden⟩, hes⟩ := Option.ite_none_right_eq_some.1 hes
  obtain ⟨a, ha, rfl⟩ := Option.map_eq_some_iff.1 hes
  refine ⟨r, hr, hhidden, ?_⟩
  rw [parseRule, ha]
  dsimp only
  rw [h, hid, hname]

/-- One more level passes on what stands at the end of a text. -/
theorem Parses.lift {inner outer : Form} (h : Parses separator d inner s t s')
    (hlifts : lifts k inner outer = true) (hk : s.next.kind = k) (hend : s'.next.kind = .eof)
    (hoffset : s'.next.place.offset ≠ s.next.place.offset) :
    Parses separator (d + 1) outer s
      (.node outer.number (Build.ruleOf outer).name s.next.place
        (t.spliced (Build.ruleOf inner).hidden)) s' := by
  obtain ⟨r, hr, hhidden, hparse⟩ := h
  obtain ⟨es, hes, hlifts⟩ := (Option.any_eq_true _ _).1 hlifts
  subst hk
  cases hdrop : es.dropWhile (·.skips s.next.kind) with
  | nil =>
    rw [hdrop] at hlifts
    cases hlifts
  | cons e rest =>
    rw [hdrop] at hlifts
    simp only [Bool.and_eq_true, beq_iff_eq] at hlifts
    obtain ⟨⟨he, hfirst⟩, hrest⟩ := hlifts
    have hcopy : parseElement table separator (parseRule table separator d) e (s.bound + 2) 0 [] s =
        .ok ((t.spliced r.hidden).reverse ++ [], s') :=
      parseElement_once he hfirst hr hparse hoffset [] (s.bound + 1)
    have helements : parseElements table separator (parseRule table separator d) es [] s =
        .ok ((t.spliced r.hidden).reverse, s') := by
      rw [← hend] at hrest
      rw [← List.takeWhile_append_dropWhile (p := (·.skips s.next.kind)) (l := es),
        parseElements_skips List.all_takeWhile, hdrop, parseElements, hcopy]
      dsimp only
      rw [← List.append_nil rest, parseElements_skips hrest, parseElements, List.append_nil]
    have hlifted := Parses.of_elements hes helements
    rwa [List.reverse_reverse, hhidden] at hlifted

/-- As many levels as there are forms. -/
theorem Parses.climb {f : Form} {fs : List Form} (hchain : (f :: fs).IsChain (lifts k · ·))
    (h : Parses separator d f s t s') (hk : s.next.kind = k) (hend : s'.next.kind = .eof)
    (hoffset : s'.next.place.offset ≠ s.next.place.offset) :
    Parses separator (d + fs.length) ((f :: fs).getLast (List.cons_ne_nil f fs)) s
      (grown s.next.place f fs t) s' := by
  induction fs generalizing f t d with
  | nil => exact h
  | cons outer fs ih =>
    obtain ⟨hlifts, hchain⟩ := List.isChain_cons_cons.1 hchain
    have hrest := ih hchain (h.lift hlifts hk hend hoffset)
    rwa [Nat.add_assoc, Nat.add_comm 1] at hrest

end Climbing

section Numerals

variable {separator d : Nat} {s s' : State} {t : Tree} {k : Kind}

theorem lifts_literal : ∀ k ∈ [Kind.integer, .hex],
    (Form.literal :: .basic :: .chain :: .negate :: Build.levels).IsChain (lifts k · ·) := by
  decide +kernel

theorem lifts_minus : (Form.negate :: Build.levels).IsChain (lifts .minus · ·) := by
  decide +kernel

/-- A literal is one token. -/
theorem elementsFrom?_literal : ∀ k ∈ [Kind.integer, .hex],
    elementsFrom? k .literal = some [⟨tok k, [k]⟩] := by
  intro k hk
  simp only [List.mem_cons, List.not_mem_nil, or_false] at hk
  rcases hk with rfl | rfl <;> with_unfolding_all rfl

/-- A minus sign stands before one chain. -/
theorem elementsFrom?_minus : ∃ first, elementsFrom? .minus .negate =
    some [⟨maybeTok .minus, [.minus]⟩, ⟨one .chain, first⟩] ∧
    ∀ k ∈ [Kind.integer, .hex], first.contains k = true := by
  refine ⟨_, by with_unfolding_all rfl, by decide +kernel⟩

theorem parses_literal (hk : s.next.kind = .integer ∨ s.next.kind = .hex) :
    Parses separator (d + 1) .literal s (.node Form.literal.number "Literal" s.next.place
      [.leaf s.next]) s.advance := by
  have hes : elementsFrom? s.next.kind .literal = some [⟨tok s.next.kind, [s.next.kind]⟩] :=
    elementsFrom?_literal _ (by simpa using hk)
  have helements : parseElements table separator (parseRule table separator d)
    [⟨tok s.next.kind, [s.next.kind]⟩] [] s =
      .ok ([.leaf s.next], s.advance) := by
    rw [parseElements, parseElement_token rfl rfl (by simp) rfl]
    rfl
  exact Parses.of_elements hes helements

theorem parses_minus (hminus : s.next.kind = .minus)
    (hk : s.advance.next.kind = .integer ∨ s.advance.next.kind = .hex)
    (h : Parses separator d .chain s.advance t s')
    (hoffset : s'.next.place.offset ≠ s.advance.next.place.offset)
    (hnode : ∃ rule name place children, t = .node rule name place children) :
    Parses separator (d + 1) .negate s (.node Form.negate.number "NegateExpression" s.next.place
      [.leaf s.next, t]) s' := by
  obtain ⟨r, hr, hhidden, hparse⟩ := h
  obtain ⟨first, hes, hfirst⟩ := elementsFrom?_minus
  rw [← hminus] at hes
  have hspliced : t.spliced r.hidden = [t] := by
    obtain ⟨rule, name, place, children, rfl⟩ := hnode
    rw [hhidden]
    rfl
  have helements : parseElements table separator (parseRule table separator d)
      [⟨maybeTok s.next.kind, [s.next.kind]⟩, ⟨one .chain, first⟩] [] s =
      .ok ([t, .leaf s.next], s') := by
    rw [parseElements, parseElement_token rfl rfl (by simp) rfl]
    dsimp only
    rw [parseElements, parseElement_once rfl (hfirst _ (by simpa using hk)) hr hparse
      hoffset, hspliced]
    rfl
  exact Parses.of_elements hes helements

/-- A text whose tokens an expression takes parses to its tree. -/
theorem parse_of_parses {l : Lexer} {text : Text} {lexemes : List Lexeme} {last : Token}
    (hread : l.read text = (lexemes, last))
    (h : Parses l.options.separator l.options.depth .expression (State.start lexemes last) t s')
    (hend : s'.next.kind = .eof)
    (hclean : s'.problems = []) : parse l text = .ok t := by
  obtain ⟨r, hr, -, hparse⟩ := h
  have hstart : table.rule? table.start = some r := hr
  have htable : expressionReady = table := expressionReady_eq
  rw [parse, parseText, hread, htable, parseLexemes]
  simp only [hstart, hparse, hend, BEq.rfl, if_true, hclean]

end Numerals

end Grammar

namespace Build

open Grammar (Parses State)

/-- The tree of a numeral alone. -/
def numeralTree (t : Token) : Tree := .node Form.chain.number "MemberExpression" t.place [.leaf t]

section Trees

variable {l : Lexer} {text : Text} {t m last : Token}

/-- The tree of a text that is one numeral. -/
theorem parse_numeral (hdepth : 15 ≤ l.options.depth) (hread : l.read text = ([.token t], last))
    (hend : last.kind = .eof)
    (hk : t.kind = .integer ∨ t.kind = .hex) (hoffset : last.place.offset ≠ t.place.offset) :
    Grammar.parse l text = .ok (wrapped t.place (.negate :: levels) (numeralTree t)) := by
  obtain ⟨d, hd⟩ := Nat.exists_eq_add_of_le' hdepth
  let s := State.start [.token t] last
  have hliteral : Parses l.options.separator (d + 1) .literal s
    (.node Form.literal.number "Literal" t.place [.leaf t])
      s.advance := Grammar.parses_literal hk
  have hwhole : Parses l.options.separator (d + 15) .expression s _ s.advance :=
    hliteral.climb (Grammar.lifts_literal t.kind (by simpa using hk)) rfl hend hoffset
  rw [← hd] at hwhole
  exact Grammar.parse_of_parses hread hwhole hend rfl

/-- The tree of a text that is one numeral behind a minus sign. -/
theorem parse_signed (hdepth : 15 ≤ l.options.depth)
    (hread : l.read text = ([.token m, .token t], last))
    (hend : last.kind = .eof) (hminus : m.kind = .minus) (hk : t.kind = .integer ∨ t.kind = .hex)
    (hoffset : last.place.offset ≠ t.place.offset) (hoffset' : last.place.offset ≠ m.place.offset) :
    Grammar.parse l text = .ok
      (wrapped m.place levels (.node Form.negate.number "NegateExpression" m.place
        [.leaf m, numeralTree t])) := by
  obtain ⟨d, hd⟩ := Nat.exists_eq_add_of_le' hdepth
  let s := State.start [.token m, .token t] last
  have hliteral : Parses l.options.separator (d + 1) .literal s.advance
      (.node Form.literal.number "Literal" t.place [.leaf t]) s.advance.advance :=
      Grammar.parses_literal hk
  have hlifts : [Form.literal, .basic, .chain].IsChain (Grammar.lifts t.kind · ·) :=
    (Grammar.lifts_literal t.kind (by simpa using hk)).take 3
  have hchain : Parses l.options.separator (d + 3) .chain s.advance (numeralTree t)
      s.advance.advance :=
    hliteral.climb hlifts rfl hend hoffset
  have hnegate : Parses l.options.separator (d + 4) .negate s _ s.advance.advance :=
    Grammar.parses_minus hminus hk hchain hoffset ⟨_, _, _, _, rfl⟩
  have hwhole : Parses l.options.separator (d + 15) .expression s _ s.advance.advance :=
    hnegate.climb Grammar.lifts_minus hminus hend hoffset'
  rw [← hd] at hwhole
  exact Grammar.parse_of_parses hread hwhole hend rfl

end Trees

section Elements

variable {s : Scope} {t m : Token} {k : Kind} {image : Text} {v v' : Option Value} {place : Place}

/-- The refusal of a numeral that fits no type. -/
def Overflows {α : Type} (r : Except Failure α) : Prop :=
  ∃ e, r = .error (.compile e) ∧ e.reason = .constantOverflow

theorem Overflows.map {α β : Type} {r : Except Failure α} (h : Overflows r) (f : α → β) :
    Overflows (r.map f) := by
  obtain ⟨e, rfl, he⟩ := h
  exact ⟨e, rfl, he⟩

theorem Overflows.placedAt {α : Type} {r : Except Failure α} (h : Overflows r) (position : Nat) :
    Overflows (placedAt position r) := by
  obtain ⟨e, rfl, he⟩ := h
  exact ⟨e.placed position, rfl, he⟩

/-- The element of a constant, or the refusal of a numeral that is too large. -/
def Numbered (k : Kind) (image : Text) (v : Option Value) (r : Except Failure Element) : Prop :=
  match v with
  | some v => r = .ok (numeralElement k image v)
  | none => Overflows r

theorem numbered_held (negated : Bool) : Numbered k image v
    ((held image negated v).map (numeralElement k image)) := by
  cases v with
  | some v => rfl
  | none => exact ⟨_, rfl, rfl⟩

/-- A numeral alone is built to its literal. -/
theorem build_numeral (s : Scope) (t : Token) :
    build s (numeralTree t) =
      placedAt t.place.offset (placedAt t.place.offset ((literal s.options t).map .value)) := by
  have hnode : build s (numeralTree t) = placedAt t.place.offset
      (linkChain s [⟨t.place, .token t⟩]) := by
    rw [numeralTree, build, buildAll, build, buildAll]
    rfl
  rw [hnode, linkChain]
  cases hliteral : literal s.options t with
  | error f =>
    simp only [firstLink, hliteral]
    rfl
  | ok e =>
    simp only [firstLink, hliteral]
    rfl

theorem overflows_numeral (h : Overflows (literal s.options t)) :
    Overflows (build s (numeralTree t)) := by
  rw [build_numeral]
  exact ((h.map Attribute.value).placedAt _).placedAt _

theorem minus_numeral (s : Scope) (k : Kind) (image : Text) (v : Value) :
    minus s (numeralElement k image v) = number s.options k image true := by
  rw [minus_eq]
  rfl

/-- A minus sign is applied to what stands behind it. -/
theorem build_minus (s : Scope) (m : Token) (hminus : m.kind = .minus) (t : Tree) {e : Element}
    (h : build s t = .ok (.value e)) :
    build s (.node Form.negate.number "NegateExpression" m.place [.leaf m, t]) =
      placedAt m.place.offset ((minus s e).map .value) := by
  rw [build, buildAll, build, buildAll, buildAll, h]
  obtain ⟨kind, image, place⟩ := m
  subst hminus
  rfl

theorem build_minus_error (s : Scope) (m : Token) (t : Tree) {f : Failure}
    (h : build s t = .error f) :
    build s (.node Form.negate.number "NegateExpression" m.place [.leaf m, t]) = .error f := by
  rw [build, buildAll, build, buildAll, h]
  rfl

/-- The element of a numeral alone. -/
theorem element_numeral (h : Numbered k image v (literal s.options t)) :
    Numbered k image v (element s (wrapped place (.negate :: levels) (numeralTree t))) := by
  cases v with
  | some v =>
    have hliteral : literal s.options t = .ok (numeralElement k image v) := h
    have hbuild := build_numeral s t
    rw [hliteral] at hbuild
    show element s _ = _
    rw [element, build_wrapped (fun _ hf => hf) hbuild]
    rfl
  | none =>
    obtain ⟨e, herror, he⟩ := overflows_numeral h
    refine ⟨e, ?_, he⟩
    rw [element, build_wrapped_error place _ herror]
    rfl

/-- The element of a numeral behind a minus sign is the numeral read with the sign, if it can be
read without it. -/
theorem element_signed (hminus : m.kind = .minus) (h : Numbered k image v (literal s.options t))
    (hsigned : Numbered k image v' (number s.options k image true)) :
    Numbered k image (v.bind fun _ => v') (element s
      (wrapped place levels (.node Form.negate.number "NegateExpression" m.place
        [.leaf m, numeralTree t]))) := by
  cases v with
  | none =>
    obtain ⟨e, herror, he⟩ := overflows_numeral h
    refine ⟨e, ?_, he⟩
    rw [element, build_wrapped_error place _ (build_minus_error s m _ herror)]
    rfl
  | some v =>
    have hliteral : literal s.options t = .ok (numeralElement k image v) := h
    have hbuild := build_numeral s t
    rw [hliteral] at hbuild
    have happlied := build_minus s m hminus (numeralTree t) hbuild
    rw [minus_numeral] at happlied
    cases v' with
    | some v' =>
      have hnumber : number s.options k image true = .ok (numeralElement k image v') := hsigned
      rw [hnumber] at happlied
      show element s _ = _
      rw [element, build_wrapped (List.subset_cons_self _ _) happlied]
      rfl
    | none =>
      obtain ⟨e, herror, he⟩ := (Overflows.map hsigned Attribute.value).placedAt m.place.offset
      refine ⟨e, ?_, he⟩
      rw [element, build_wrapped_error place _ (happlied.trans herror)]
      rfl

end Elements

end Build

end Formulary
