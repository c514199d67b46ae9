import Formulary.Grammar.Prepare

/-!
# The grammar of expressions

From the loosest operators to the tightest: `xor`, `or`, `and`, `not`, `in`, shifts, comparisons,
sums, products, powers, a minus sign, and chains of members and indexes.
-/

namespace Formulary.Grammar

open Lexical (Kind)

inductive Form where
  | expression
  | xor
  | or
  | and
  | not
  | among
  | list
  | collection
  | shift
  | compare
  | sum
  | product
  | power
  | negate
  | chain
  | paren
  | choice
  | cast
  | castType
  | name
  | arguments
  | argumentList
  | member
  | index
  | xorTail
  | orTail
  | andTail
  | amongTail
  | amongTarget
  | shiftTail
  | shiftOperator
  | compareTail
  | compareOperator
  | sumTail
  | sumOperator
  | productTail
  | productOperator
  | powerTail
  | chainTail
  | basic
  | literal
  | argumentTail
  | castTypeTail
  | arrayRank
  deriving DecidableEq, Repr

namespace Form

/-- The forms in the order of their numbers, which count from one. -/
def all : List Form :=
  [expression, xor, or, and, not, among, list, collection, shift, compare, sum, product,
    power, negate, chain, paren, choice, cast, castType, name, arguments, argumentList, member,
    index, xorTail, orTail, andTail, amongTail, amongTarget, shiftTail, shiftOperator, compareTail,
    compareOperator, sumTail, sumOperator, productTail, productOperator, powerTail, chainTail,
    basic, literal, argumentTail, castTypeTail, arrayRank]

def number (f : Form) : Nat := all.idxOf f + 1

def ofNumber? (n : Nat) : Option Form := if n == 0 then none else all[n - 1]?

end Form

def tok (k : Kind) : Element := ⟨.token k, 1, some 1⟩

def maybeTok (k : Kind) : Element := ⟨.token k, 0, some 1⟩

def one (f : Form) : Element := ⟨.rule f.number, 1, some 1⟩

def maybe (f : Form) : Element := ⟨.rule f.number, 0, some 1⟩

def many (f : Form) : Element := ⟨.rule f.number, 0, none⟩

def shown (f : Form) (name : String) (alternatives : List (List Element)) : Rule :=
  ⟨f.number, name, false, alternatives⟩

/-- A rule whose children go to its parent. -/
def spliced (f : Form) (name : String) (alternatives : List (List Element)) : Rule :=
  ⟨f.number, name, true, alternatives⟩

def expressionRules : List Rule :=
  [shown .expression "Expression" [[one .xor]],
    shown .xor "XorExpression" [[one .or, many .xorTail]],
    spliced .xorTail "XorTail" [[tok .xor, one .or]],
    shown .or "OrExpression" [[one .and, many .orTail]],
    spliced .orTail "OrTail" [[tok .or, one .and]],
    shown .and "AndExpression" [[one .not, many .andTail]],
    spliced .andTail "AndTail" [[tok .and, one .not]],
    shown .not "NotExpression" [[maybeTok .not, one .among]],
    shown .among "InExpression" [[one .shift, maybe .amongTail]],
    spliced .amongTail "InTail" [[tok .among, one .amongTarget]],
    spliced .amongTarget "InTarget" [[one .list], [one .collection]],
    shown .list "InListTarget" [[tok .parenOpen, one .argumentList, tok .parenClose]],
    shown .collection "InCollectionTarget" [[one .name, many .chainTail]],
    shown .shift "ShiftExpression" [[one .compare, many .shiftTail]],
    spliced .shiftTail "ShiftTail" [[one .shiftOperator, one .compare]],
    spliced .shiftOperator "ShiftOperator" [[tok .shiftLeft], [tok .shiftRight]],
    shown .compare "CompareExpression" [[one .sum, many .compareTail]],
    spliced .compareTail "CompareTail" [[one .compareOperator, one .sum]],
    spliced .compareOperator "CompareOperator"
      [[tok .equal], [tok .notEqual], [tok .less], [tok .lessEqual], [tok .greater],
        [tok .greaterEqual]],
    shown .sum "AdditiveExpression" [[one .product, many .sumTail]],
    spliced .sumTail "AdditiveTail" [[one .sumOperator, one .product]],
    spliced .sumOperator "AdditiveOperator" [[tok .plus], [tok .minus]],
    shown .product "MultiplicativeExpression" [[one .power, many .productTail]],
    spliced .productTail "MultiplicativeTail" [[one .productOperator, one .power]],
    spliced .productOperator "MultiplicativeOperator" [[tok .times], [tok .divide], [tok .mod]],
    shown .power "PowerExpression" [[one .negate, many .powerTail]],
    spliced .powerTail "PowerTail" [[tok .power, one .negate]],
    shown .negate "NegateExpression" [[maybeTok .minus, one .chain]],
    shown .chain "MemberExpression" [[one .basic, many .chainTail]],
    spliced .chainTail "MemberTail" [[one .member], [one .index]],
    shown .member "MemberAccessExpression" [[tok .dot, one .name]],
    shown .index "IndexExpression" [[tok .bracketOpen, one .argumentList, tok .bracketClose]],
    spliced .basic "BasicExpression" [[one .literal], [one .paren], [one .choice],
      [one .cast], [one .name]],
    spliced .literal "Literal"
      [[tok .integer], [tok .real], [tok .hex], [tok .string], [tok .char], [tok .dateTime],
        [tok .timeSpan], [tok .yes], [tok .no], [tok .null]],
    shown .paren "ParenthesizedExpression" [[tok .parenOpen, one .expression, tok .parenClose]],
    shown .name "MemberFunctionExpression" [[tok .identifier, maybe .arguments]],
    shown .arguments "CallArguments" [[tok .parenOpen, maybe .argumentList, tok .parenClose]],
    shown .argumentList "ArgumentList" [[one .expression, many .argumentTail]],
    spliced .argumentTail "ArgumentTail" [[tok .separator, one .expression]],
    shown .choice "IfExpression"
      [[tok .choose, tok .parenOpen, one .expression, tok .separator,
        one .expression, tok .separator, one .expression, tok .parenClose]],
    shown .cast "CastExpression"
      [[tok .cast, tok .parenOpen, one .expression, tok .separator, one .castType,
        tok .parenClose]],
    shown .castType "CastTypeExpression" [[tok .identifier, many .castTypeTail, maybe .arrayRank]],
    spliced .castTypeTail "CastTypeTail" [[tok .dot, tok .identifier]],
    spliced .arrayRank "ArrayRank" [[tok .bracketOpen, tok .bracketClose]]]

def expressionGrammar : RuleSet := ⟨Form.expression.number, expressionRules⟩

def expressionReady : Ready :=
  ⟨expressionGrammar.start, expressionRules.map (Rule.ready expressionGrammar.facts)⟩

end Formulary.Grammar
