import Mathlib.Tactic.Ring
import Formulary.Proofs.Grammar.Steering

/-!
# Neighbours of tokens

What the order of tokens in an expression keeps to: parentheses are closed as often as they are
opened, and behind a literal comes what can follow a literal. Both hold for all that the rules
derive, since they hold within each rule.
-/

namespace Formulary.Grammar

open Lexical (Kind)

section Balance

/-- What a token adds to the number of open parentheses. -/
def opens : Kind → Int
  | .parenOpen => 1
  | .parenClose => -1
  | _ => 0

/-- How many parentheses are opened and not closed. -/
def openness (ks : List Kind) : Int := (ks.map opens).sum

/-- What one copy of an element adds to the number of open parentheses. -/
def Element.opens (e : Element) : Int :=
  match e.target with
  | .token k => Grammar.opens k
  | .rule _ => 0

/-- An element that stands there once if it is a parenthesis. -/
def Element.IsLone (e : Element) : Prop := e.opens ≠ 0 → e.least = 1 ∧ e.most = some 1

instance (e : Element) : Decidable e.IsLone := inferInstanceAs (Decidable (_ → _))

theorem expressionRules_balanced :
    ∀ r ∈ expressionRules, ∀ es ∈ r.alternatives, (es.map Element.opens).sum = 0 ∧
      ∀ e ∈ es, e.IsLone := by
  decide +kernel

@[simp] theorem openness_cons (k : Kind) (ks : List Kind) :
    openness (k :: ks) = opens k + openness ks := rfl

@[simp] theorem openness_append (ks ks' : List Kind) :
    openness (ks ++ ks') = openness ks + openness ks' := by
  simp [openness]

/-- How many parentheses a phrase opens and does not close. -/
def Phrase.Opens (ks : List Kind) : Phrase → Prop
  | .rule _ => openness ks = 0
  | .elements es => (∀ e ∈ es, e.IsLone) → openness ks = (es.map Element.opens).sum
  | .copies e n => openness ks = n * e.opens

theorem Derives.opens {p : Phrase} {ks : List Kind} (h : Derives expressionGrammar p ks) :
    p.Opens ks := by
  induction h with
  | @rule r es ks hr hes _ ih =>
    obtain ⟨hsum, hlone⟩ := expressionRules_balanced r hr es hes
    exact (ih hlone).trans hsum
  | nil => exact fun _ => rfl
  | @cons e es n ks ks' counts _ _ ih ih' =>
    intro hlone
    have hcopies : openness ks = n * e.opens := ih
    have hrest : openness ks' = (es.map Element.opens).sum := ih' fun x hx =>
      hlone x (List.mem_cons_of_mem e hx)
    have hone : n * e.opens = e.opens := by
      by_cases hzero : e.opens = 0
      · rw [hzero, Int.mul_zero]
      · obtain ⟨hleast, hmost⟩ := hlone e List.mem_cons_self hzero
        have hn : n = 1 := Nat.le_antisymm (counts.2 1 hmost) (hleast ▸ counts.1)
        rw [hn]
        exact Int.one_mul _
    rw [openness_append, hcopies, hone, hrest, List.map_cons, List.sum_cons]
  | none => exact (Int.zero_mul _).symm
  | @token e k n ks he _ ih =>
    have hcopies : openness ks = n * e.opens := ih
    have hfirst : e.opens = Grammar.opens k := by rw [Element.opens, he]
    show openness (k :: ks) = _
    rw [openness_cons, hcopies, ← hfirst]
    push_cast
    ring
  | @copy e id n ks ks' he _ _ ih ih' =>
    have hrule : openness ks = 0 := ih
    have hcopies : openness ks' = n * e.opens := ih'
    have hnone : e.opens = 0 := by rw [Element.opens, he]
    show openness (ks ++ ks') = _
    rw [openness_append, hrule, hcopies, hnone, Int.mul_zero, Int.mul_zero, Int.add_zero]

/-- An expression closes the parentheses it opens. -/
theorem openness_eq_zero {id : Nat} {ks : List Kind} (h : Derives expressionGrammar (.rule id) ks) :
    openness ks = 0 :=
  h.opens

end Balance

section Literals

/-- Behind each literal comes what can follow one; `next` is what comes behind all. -/
def Bordered : List Kind → Kind → Prop
  | [], _ => True
  | k :: ks, next => (k ∈ Form.starts .literal → ks.head?.getD next ∈ Form.follows .literal) ∧
      Bordered ks next

theorem Bordered.append {ks ks' : List Kind} {next : Kind} (h : Bordered ks (ks'.head?.getD next))
    (h' : Bordered ks' next) : Bordered (ks ++ ks') next := by
  induction ks with
  | nil => exact h'
  | cons k ks ih =>
    refine ⟨fun hk => ?_, ih h.2⟩
    have hborder := h.1 hk
    cases ks with
    | nil => exact hborder
    | cons k' ks => exact hborder

def Element.isLiteral (e : Element) : Bool :=
  match e.target with
  | .token k => (Form.starts .literal).contains k
  | .rule _ => false

/-- A literal is alone in its rule. -/
theorem expressionRules_literal : ∀ r ∈ expressionRules, ∀ es ∈ r.alternatives,
    (∀ e ∈ es, e.isLiteral = false) ∨
    (es.length = 1 ∧ ∀ e ∈ es, e.least = 1 ∧ e.most = some 1 ∧ e.isLiteral = true) ∧
      ∀ k ∈ byNumber Form.follows r.id, k ∈ Form.follows .literal := by
  decide +kernel

/-- The kinds of a phrase are bordered, if what comes behind them can follow the phrase. -/
def Phrase.Borders (ks : List Kind) : Phrase → Prop
  | .rule id => ∀ next ∈ byNumber Form.follows id, Bordered ks next
  | .elements es => ∀ after, ∀ next ∈ after,
    Steered (expressionGrammar.tableOf (byNumber Form.starts)) (byNumber Form.follows) after es →
    (∀ e ∈ es, e.isLiteral = false) → Bordered ks next
  | .copies e n => ∀ next, e.isLiteral = false →
      (∀ id, e.target = .rule id → next ∈ byNumber Form.follows id ∧
    (n ≤ 1 ∨ ∀ k ∈ (e.facts (expressionGrammar.tableOf (byNumber Form.starts))).first,
      k ∈ byNumber Form.follows id)) →
    Bordered ks next

/-- A token that stands once derives itself. -/
theorem Derives.eq_of_lone {g : RuleSet} {e : Element} {ks : List Kind}
    (h : Derives g (.elements [e]) ks)
    (hleast : e.least = 1) (hmost : e.most = some 1) (hliteral : e.isLiteral = true) :
    ∃ k, ks = [k] := by
  cases h with
  | @cons _ _ n ks ks' counts h h' =>
    cases h'
    have hn : n = 1 := Nat.le_antisymm (counts.2 1 hmost) (hleast ▸ counts.1)
    subst hn
    cases h with
    | @token _ k _ _ he h =>
      cases h
      exact ⟨k, rfl⟩
    | @copy _ id _ _ _ he =>
      rw [Element.isLiteral, he] at hliteral
      cases hliteral

theorem Derives.borders {p : Phrase} {ks : List Kind} (h : Derives expressionGrammar p ks) :
    p.Borders ks := by
  induction h with
  | @rule r es ks hr hes h ih =>
    intro next hnext
    rcases expressionRules_literal r hr es hes with hnone | ⟨⟨hlength, hlone⟩, hfollows⟩
    · exact ih _ next hnext (expressionGrammar_predictive.steered r hr es hes) hnone
    · obtain ⟨e, rfl⟩ := List.length_eq_one_iff.1 hlength
      obtain ⟨hleast, hmost, hliteral⟩ := hlone e (List.mem_singleton.2 rfl)
      obtain ⟨k, rfl⟩ := h.eq_of_lone hleast hmost hliteral
      exact ⟨fun _ => hfollows next hnext, trivial⟩
  | nil => exact fun _ _ _ _ _ => trivial
  | @cons e es n ks ks' counts _ h' ih ih' =>
    intro after next hnext hsteered hnone
    obtain ⟨-, -, htarget, hrest⟩ := hsteered
    have hahead := expressionGrammar_predictive.head_mem_ahead h' hnext
    refine Bordered.append (ih _ (hnone e List.mem_cons_self) fun id hid => ?_)
      (ih' after next hnext hrest fun x hx => hnone x (List.mem_cons_of_mem e hx))
    simp only [hid] at htarget
    exact ⟨htarget.1 _ hahead, htarget.2.imp_left (counts.2 1)⟩
  | none => exact fun _ _ _ => trivial
  | @token e k n ks he _ ih =>
    intro next hnone hfollows
    refine ⟨fun hk => ?_, ih next hnone fun id hid => nomatch he.symm.trans hid⟩
    rw [Element.isLiteral, he] at hnone
    exact absurd hnone (by simpa using hk)
  | @copy e id n ks ks' he _ h' ih ih' =>
    intro next hnone hfollows
    obtain ⟨hnext, hagain⟩ := hfollows id he
    refine Bordered.append (ih _ ?_) (ih' next hnone fun id' hid' => ?_)
    · -- Behind one copy comes the next one, or what comes behind all.
      cases ks' with
      | nil => exact hnext
      | cons k ks' =>
        have hcovered : (e.facts expressionGrammar.facts).Covers (k :: ks') := by
          rcases h'.covered expressionGrammar_predictive.distinct with ⟨-, hnil⟩ | hcovered
          · cases hnil
          · exact hcovered
        have hfirst := hcovered.le (Element.facts_le expressionGrammar_predictive.facts_le_table e)
        rcases hagain with hn | hagain
        · obtain rfl : n = 0 := by omega
          cases h'
        · exact hagain k hfirst
    · cases he.symm.trans hid'
      exact ⟨hnext, hagain.imp_left fun h => by omega⟩

/-- Behind a literal of an expression comes what can follow a literal, or the end. -/
theorem Derives.bordered {ks : List Kind}
    (h : Derives expressionGrammar (.rule Form.expression.number) ks) :
    Bordered ks .eof :=
  h.borders .eof (by decide)

end Literals

end Formulary.Grammar
