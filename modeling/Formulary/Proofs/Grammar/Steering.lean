import Formulary.Grammar.Expression
import Formulary.Grammar.Parse
import Formulary.Proofs.Grammar.Derivation
import Formulary.Proofs.Lexical.Pruned

/-!
# The grammar of expressions is predictive

The kinds that each form starts with and can be followed by. The operators of each level can follow
everything that binds tighter, and no form of a level starts with one of them in its place.
-/

namespace Formulary.Grammar

open Lexical (Kind)

namespace Form

/-- The kinds an operand starts with if it can also start with some words and signs, in the order of
all kinds. -/
def operandStarts (words signs : List Kind) : List Kind :=
  let before : List Kind :=
    [.integer, .real, .hex, .string, .char, .dateTime, .timeSpan, .identifier, .yes, .no, .null]
  before ++ words ++ [Kind.choose, .cast] ++ signs ++ [Kind.parenOpen]

def starts : Form → List Kind
  | .expression | .xor | .or | .and | .not | .argumentList => operandStarts [.not] [.minus]
  | .among | .shift | .compare | .sum | .product | .power | .negate => operandStarts [] [.minus]
  | .chain | .basic => operandStarts [] []
  | .literal => [.integer, .real, .hex, .string, .char, .dateTime, .timeSpan, .yes, .no, .null]
  | .list | .paren | .arguments => [.parenOpen]
  | .collection | .castType | .name => [.identifier]
  | .amongTarget => [.identifier, .parenOpen]
  | .choice => [.choose]
  | .cast => [.cast]
  | .member | .castTypeTail => [.dot]
  | .index | .arrayRank => [.bracketOpen]
  | .chainTail => [.bracketOpen, .dot]
  | .xorTail => [.xor]
  | .orTail => [.or]
  | .andTail => [.and]
  | .amongTail => [.among]
  | .shiftTail | .shiftOperator => [.shiftLeft, .shiftRight]
  | .compareTail
  | .compareOperator => [.equal, .notEqual, .less, .lessEqual, .greater, .greaterEqual]
  | .sumTail | .sumOperator => [.plus, .minus]
  | .productTail | .productOperator => [.times, .divide, .mod]
  | .powerTail => [.power]
  | .argumentTail => [.separator]

/-- The kinds a form starts with stand in the order of all kinds. -/
theorem filter_starts (f : Form) : Kind.all.filter (starts f).contains = starts f := by
  have hall : ∀ f ∈ all, Kind.all.filter (starts f).contains = starts f := by decide +kernel
  exact hall f (by cases f <;> decide)

/-- The operators from the loosest level to the tightest. -/
def levels : List (List Kind) :=
  [[.xor], [.or], [.and], [.among], starts .shiftTail, starts .compareTail, starts .sumTail,
    starts .productTail, [.power], starts .chainTail]

/-- What ends an expression, and the operators of so many levels. -/
def endOr (n : Nat) : List Kind :=
  [Kind.eof, .parenClose, .bracketClose, .separator] ++ (levels.take n).flatten

def follows : Form → List Kind
  | .expression | .xor => endOr 0
  | .or | .xorTail => endOr 1
  | .and | .orTail => endOr 2
  | .not | .andTail | .among | .amongTail | .amongTarget | .list | .collection => endOr 3
  | .shift => endOr 4
  | .compare | .shiftTail => endOr 5
  | .sum | .compareTail => endOr 6
  | .product | .sumTail => endOr 7
  | .power | .productTail => endOr 8
  | .negate | .powerTail | .chain => endOr 9
  | .basic | .literal | .paren | .choice | .cast | .name | .arguments | .chainTail | .member
  | .index => endOr 10
  | .shiftOperator => starts .compare
  | .compareOperator => starts .sum
  | .sumOperator => starts .product
  | .productOperator => starts .power
  | .argumentList => [.parenClose, .bracketClose]
  | .argumentTail => [.separator, .parenClose, .bracketClose]
  | .castType | .arrayRank => [.parenClose]
  | .castTypeTail => [.dot, .bracketOpen, .parenClose]

end Form

def byNumber (table : Form → List Kind) (id : Nat) : List Kind :=
  ((Form.ofNumber? id).map table).getD []

/-- One kind ahead steers the grammar of expressions. -/
theorem expressionGrammar_predictive :
    expressionGrammar.Predictive (byNumber Form.starts) (byNumber Form.follows) where
  distinct := by decide +kernel
  defined := by decide +kernel
  closed := by decide +kernel
  apart := by decide +kernel
  steered := by decide +kernel

/-- How many forms lead from a form to its first token. -/
def Form.height : Form → Nat
  | .argumentList => 15
  | .expression => 14
  | .xor => 13
  | .or => 12
  | .and => 11
  | .not => 10
  | .among => 9
  | .shift => 8
  | .compare => 7
  | .sum => 6
  | .product => 5
  | .power => 4
  | .negate => 3
  | .chain | .amongTarget => 2
  | .basic | .collection | .chainTail | .shiftTail | .compareTail | .sumTail | .productTail => 1
  | _ => 0

theorem filter_byNumber_starts (id : Nat) :
    Kind.all.filter (byNumber Form.starts id).contains = byNumber Form.starts id := by
  unfold byNumber
  cases Form.ofNumber? id with
  | none => decide
  | some f => exact Form.filter_starts f

instance (a b : Facts) : Decidable (a.Le b) := inferInstanceAs (Decidable (_ ∧ _))

/-- What is learned of the grammar of expressions is the table of what forms start with. -/
theorem expressionGrammar_facts :
    expressionGrammar.facts = expressionGrammar.tableOf (byNumber Form.starts) := by
  refine facts_eq expressionGrammar (fun r => ((Form.ofNumber? r.id).map Form.height).getD 0)
    (fun r => ⟨_, (filter_byNumber_starts r.id).symm⟩)
    (fun r hr => ⟨fun k hk => ?_, fun hn => ?_⟩) ?_
  · obtain ⟨es, hes, hk⟩ := mem_facts_first.1 hk
    exact (expressionGrammar_predictive.closed r hr es hes).2 k hk
  · obtain ⟨es, hes, hn⟩ := facts_nullable.1 hn
    exact absurd ((expressionGrammar_predictive.closed r hr es hes).1.symm.trans hn) nofun
  · decide +kernel

section Steered

/-- The kinds an element starts with, by the table of forms. -/
def Element.starts (e : Element) : List Kind :=
  match e.target with
  | .token k => [k]
  | .rule id => byNumber Form.starts id

/-- The kinds a sequence starts with, by the table of forms. -/
def sequenceStarts : List Element → List Kind
  | [] => []
  | e :: es => if e.least == 0 then union e.starts (sequenceStarts es) else e.starts

/-- A rule with what the table of forms says of it. -/
def Rule.steered (r : Rule) : ReadyRule :=
  { id := r.id
    name := r.name
    hidden := r.hidden
    first := byNumber Form.starts r.id
    alternatives := r.alternatives.map fun es =>
      ⟨es.map fun e => ⟨e, e.starts⟩, sequenceStarts es, false⟩ }

variable {known : Knowledge} {e : Element} {es : List Element} {r : Rule}

theorem Element.filter_starts (e : Element) : Kind.all.filter e.starts.contains = e.starts := by
  unfold Element.starts
  split
  · rename_i k _
    cases k <;> decide
  · exact filter_byNumber_starts _

theorem Element.facts_of_get
    (hget : ∀ id, e.target = .rule id → known.get id = ⟨byNumber Form.starts id, false⟩) :
    e.facts known = ⟨e.starts, e.least == 0⟩ := by
  cases htarget : e.target with
  | token k => simp only [Element.facts, Element.starts, htarget]
  | rule id => simp only [Element.facts, Element.starts, htarget, hget id htarget, Bool.or_false]

theorem sequenceFacts_first (hfacts : ∀ e ∈ es, e.facts known = ⟨e.starts, e.least == 0⟩) :
    (sequenceFacts known es).first = sequenceStarts es := by
  induction es with
  | nil => rfl
  | cons e es ih =>
    have hrest := ih fun x hx => hfacts x (List.mem_cons_of_mem _ hx)
    rw [sequenceFacts, sequenceStarts, hfacts e List.mem_cons_self]
    dsimp only
    split
    · rw [hrest]
    · exact (List.filter_congr fun k _ => by simp).trans e.filter_starts

/-- The grammar of expressions with the table of its facts. -/
theorem expressionReady_eq :
    expressionReady = ⟨Form.expression.number, expressionRules.map Rule.steered⟩ := by
  have hpredictive := expressionGrammar_predictive
  have hready : ∀ r ∈ expressionRules,
      r.ready (expressionGrammar.tableOf (byNumber Form.starts)) = r.steered := by
    intro r hr
    have hget : ∀ q ∈ expressionRules, (expressionGrammar.tableOf (byNumber Form.starts)).get q.id =
        ⟨byNumber Form.starts q.id, false⟩ := fun q hq =>
      get_of_mem hpredictive.distinct (fun r => ⟨byNumber Form.starts r.id, false⟩) hq
    have hfirst : (r.facts (expressionGrammar.tableOf (byNumber Form.starts))).first =
        byNumber Form.starts r.id := by
      have hfacts := get_facts hpredictive.distinct hr
      rw [expressionGrammar_facts, hget r hr] at hfacts
      rw [← hfacts]
    have hmatches : ∀ es ∈ r.alternatives, ∀ e ∈ es,
        e.facts (expressionGrammar.tableOf (byNumber Form.starts)) = ⟨e.starts, e.least == 0⟩ := by
      intro es hes e he
      refine Element.facts_of_get fun id hid => ?_
      obtain ⟨q, hq, rfl⟩ := hpredictive.exists_rule hr hes he hid
      exact hget q hq
    rw [Rule.ready, Rule.steered, hfirst]
    congr 1
    refine List.map_congr_left fun es hes => ?_
    dsimp only
    rw [(hpredictive.closed r hr es hes).1, sequenceFacts_first (hmatches es hes),
      List.map_congr_left fun e he => by rw [hmatches es hes e he]]
  rw [expressionReady, expressionGrammar_facts, List.map_congr_left hready]
  rfl

end Steered

/-- Parsing with the table of the grammar and the fixed strings that stand in the text. -/
theorem parse_standing (l : Lexical.Lexer) (text : Text) :
    parse l text = parseLexemes ⟨Form.expression.number, expressionRules.map Rule.steered⟩ l.options
      ((l.standing text).outline text).1 ((l.standing text).outline text).2 := by
  rw [parse, expressionReady_eq, parseText, ← Lexical.read_standing, Lexical.read_eq]

end Formulary.Grammar
