import Formulary.Proofs.Build.Resolution
import Formulary.Proofs.Grammar.Acceptance

/-!
# Grammar and builder agree

What the children of each form of the grammar are built to, apart from their content, is what the
walk over a tree takes for granted. So the walk over the tree of a text stops only where a name, a
type, a literal or an operator is refused.
-/

namespace Formulary.Build

open Grammar (Form Grows Phrase Rule Target Tree expressionGrammar expressionRules many maybe
  maybeTok one shown spliced tok)
open Lexical (Kind Token)

inductive Shape where
  | token (k : Kind)
  | value
  | arguments
  | list
  | name
  | member
  | index
  | type

def Attribute.shape : Attribute → Shape
  | .token t => .token t.kind
  | .value _ => .value
  | .arguments _ => .arguments
  | .list _ => .list
  | .name _ => .name
  | .member _ => .member
  | .index _ => .index
  | .type _ => .type

def Part.shape (p : Part) : Shape := p.built.shape

/-- The shapes that a form can add to its parent. A hidden form adds those of its children. -/
def Admits : Form → List Shape → Prop
  | .xorTail, ss | .orTail, ss | .andTail, ss | .shiftTail, ss | .compareTail, ss | .sumTail, ss
  | .productTail, ss
  | .powerTail, ss | .argumentTail, ss => ∃ k, ss = [.token k, .value]
  | .amongTail, ss => ∃ k, ss = [.token k, .list] ∨ ss = [.token k, .value]
  | .amongTarget, ss => ss = [.list] ∨ ss = [.value]
  | .shiftOperator, ss | .compareOperator, ss | .sumOperator, ss
  | .productOperator, ss => ∃ k, ss = [.token k]
  | .chainTail, ss => ss = [.member] ∨ ss = [.index]
  | .literal, ss => ∃ k, isLiteral k = true ∧ ss = [.token k]
  | .basic, ss => (∃ k, isLiteral k = true ∧ ss = [.token k]) ∨ ss = [.value] ∨ ss = [.name]
  | .castTypeTail, ss | .arrayRank, ss => ∃ k k', ss = [.token k, .token k']
  | .list, ss => ss = [.list]
  | .castType, ss => ss = [.type]
  | .name, ss => ss = [.name]
  | .arguments, ss | .argumentList, ss => ss = [.arguments]
  | .member, ss => ss = [.member]
  | .index, ss => ss = [.index]
  | _, ss => ss = [.value]

section Phrases

def CopiesAdmit (t : Target) : Nat → List Shape → Prop
  | 0, ss => ss = []
  | n + 1, ss => ∃ as bs, ss = as ++ bs ∧
    (match t with
      | .token k => as = [.token k]
      | .rule id => ∃ f, Form.ofNumber? id = some f ∧ Admits f as) ∧ CopiesAdmit t n bs

def ElementsAdmit : List Grammar.Element → List Shape → Prop
  | [], ss => ss = []
  | e :: es, ss => ∃ n as bs, ss = as ++ bs ∧ e.Counts n ∧ CopiesAdmit e.target n as ∧
      ElementsAdmit es bs

def PhraseAdmits (ss : List Shape) : Phrase → Prop
  | .rule id => ∃ f, Form.ofNumber? id = some f ∧ Admits f ss
  | .elements es => ElementsAdmit es ss
  | .copies e n => CopiesAdmit e.target n ss

variable {es : List Grammar.Element} {ss : List Shape} {f : Form} {k : Kind}

theorem ofNumber?_number (f : Form) : Form.ofNumber? f.number = some f := by
  cases f <;> rfl

theorem copiesAdmit_one : CopiesAdmit (.rule f.number) 1 ss ↔ Admits f ss := by
  simp [CopiesAdmit, ofNumber?_number]

theorem copiesAdmit_many {n : Nat} (h : CopiesAdmit (.rule f.number) n ss) :
    ∃ sss : List (List Shape), ss = sss.flatten ∧ ∀ as ∈ sss, Admits f as := by
  induction n generalizing ss with
  | zero => exact ⟨[], h, nofun⟩
  | succ n ih =>
    obtain ⟨as, bs, rfl, ⟨g, hg, ha⟩, hb⟩ := h
    rw [ofNumber?_number] at hg
    cases hg
    obtain ⟨sss, rfl, hsss⟩ := ih hb
    exact ⟨as :: sss, rfl, List.forall_mem_cons.2 ⟨ha, hsss⟩⟩

@[simp] theorem elementsAdmit_nil : ElementsAdmit [] ss ↔ ss = [] := Iff.rfl

@[simp] theorem elementsAdmit_one :
    ElementsAdmit (one f :: es) ss ↔ ∃ as, Admits f as ∧ ∃ bs, ElementsAdmit es bs ∧
      ss = as ++ bs := by
  constructor
  · rintro ⟨n, as, bs, rfl, hcounts, h, h'⟩
    obtain rfl : n = 1 := Nat.le_antisymm (hcounts.2 1 rfl) hcounts.1
    exact ⟨as, copiesAdmit_one.1 h, bs, h', rfl⟩
  · rintro ⟨as, h, bs, h', rfl⟩
    exact ⟨1, as, bs, rfl, ⟨Nat.le_refl 1, fun m hm => by cases hm; exact Nat.le_refl 1⟩,
      copiesAdmit_one.2 h, h'⟩

@[simp] theorem elementsAdmit_tok :
    ElementsAdmit (tok k :: es) ss ↔ ∃ bs, ElementsAdmit es bs ∧ ss = .token k :: bs := by
  constructor
  · rintro ⟨n, as, bs, rfl, hcounts, h, h'⟩
    obtain rfl : n = 1 := Nat.le_antisymm (hcounts.2 1 rfl) hcounts.1
    obtain ⟨_, _, rfl, rfl, rfl⟩ := h
    exact ⟨bs, h', rfl⟩
  · rintro ⟨bs, h', rfl⟩
    exact ⟨1, [.token k], bs, rfl, ⟨Nat.le_refl 1, fun m hm => by cases hm; exact Nat.le_refl 1⟩,
      ⟨[.token k], [], rfl, rfl, rfl⟩, h'⟩

theorem elementsAdmit_maybe (h : ElementsAdmit (maybe f :: es) ss) :
    ElementsAdmit es ss ∨ ElementsAdmit (one f :: es) ss := by
  obtain ⟨n, as, bs, rfl, hcounts, h, h'⟩ := h
  have hn : n ≤ 1 := hcounts.2 1 rfl
  rcases Nat.le_one_iff_eq_zero_or_eq_one.1 hn with rfl | rfl
  · obtain rfl : as = [] := h
    exact .inl h'
  · exact .inr (elementsAdmit_one.2 ⟨as, copiesAdmit_one.1 h, bs, h', rfl⟩)

theorem elementsAdmit_maybeTok (h : ElementsAdmit (maybeTok k :: es) ss) :
    ElementsAdmit es ss ∨ ElementsAdmit (tok k :: es) ss := by
  obtain ⟨n, as, bs, rfl, hcounts, h, h'⟩ := h
  have hn : n ≤ 1 := hcounts.2 1 rfl
  rcases Nat.le_one_iff_eq_zero_or_eq_one.1 hn with rfl | rfl
  · obtain rfl : as = [] := h
    exact .inl h'
  · obtain ⟨_, _, rfl, rfl, rfl⟩ := h
    exact .inr (elementsAdmit_tok.2 ⟨bs, h', rfl⟩)

/-- A form and any number of tails. -/
theorem elementsAdmit_tails {tail : Form} (h : ElementsAdmit [one f, many tail] ss) :
    ∃ as, Admits f as ∧ ∃ sss : List (List Shape), (∀ bs ∈ sss, Admits tail bs) ∧ ss = as ++
      sss.flatten := by
  obtain ⟨as, ha, bs, ⟨n, cs, ds, rfl, -, htails, rfl⟩, rfl⟩ := elementsAdmit_one.1 h
  obtain ⟨sss, rfl, hsss⟩ := copiesAdmit_many htails
  exact ⟨as, ha, sss, hsss, by rw [List.append_nil]⟩

end Phrases

/-- A walk that stops only where the resolution refuses, and else gives what is as it should be. -/
def Steady (x : Except Halt α) (P : α → Prop) : Prop :=
  match x with
  | .ok a => P a
  | .error h => h.lapse? = none

namespace Steady

variable {α β : Type} {P : α → Prop} {Q : β → Prop} {x : Except Halt α}

theorem weaken (h : Steady x P) {P' : α → Prop} (himp : ∀ a, P a → P' a) : Steady x P' := by
  cases x with
  | ok a => exact himp a h
  | error e => exact h

theorem bind (h : Steady x P) {f : α → Except Halt β} (hf : ∀ a, P a → Steady (f a) Q) :
    Steady (x >>= f) Q := by
  cases x with
  | ok a => exact hf a h
  | error e => exact h

theorem map (h : Steady x P) {f : α → β} (hf : ∀ a, P a → Q (f a)) : Steady (x.map f) Q := by
  cases x with
  | ok a => exact hf a h
  | error e => exact h

theorem haltedAt (h : Steady x P) (position : Nat) : Steady (haltedAt position x) P := by
  cases x with
  | ok a => exact h
  | error e => exact h

theorem answered (y : Except Failure α) : Steady (answered y) fun _ => True := by
  cases y with
  | ok a => trivial
  | error e => rfl

end Steady

section Parts

variable {parts : List Part} {p : Part}

theorem Part.exists_token {k : Kind} (h : p.shape = .token k) : ∃ t, p.built = .token t ∧
    t.kind = k := by
  obtain ⟨place, built⟩ := p
  cases built <;> cases h
  exact ⟨_, rfl, rfl⟩

theorem Part.exists_value (h : p.shape = .value) : ∃ e, p.built = .value e := by
  obtain ⟨place, built⟩ := p
  cases built <;> cases h
  exact ⟨_, rfl⟩

theorem steady_valueOf (h : p.shape = .value) : Steady (Resolution.valueOf p) fun _ => True := by
  obtain ⟨e, he⟩ := Part.exists_value h
  simp [Resolution.valueOf, he, Steady]

def Shape.isBuilt : Shape → Bool
  | .token _ => false
  | _ => true

theorem map_shape_filter (parts : List Part) :
    (parts.filter Part.isBuilt).map Part.shape = (parts.map Part.shape).filter Shape.isBuilt := by
  rw [List.filter_map]
  congr 1
  refine List.filter_congr fun p _ => ?_
  obtain ⟨place, built⟩ := p
  cases built <;> rfl

end Parts

section Combine

variable {parts : List Part}

/-- Operators and operands in turn are folded. -/
theorem steady_fold (apply : Kind → Element → Element → Except Failure Element)
    {sss : List (List Shape)}
    (hs : ∀ as ∈ sss, ∃ k, as = [.token k, .value]) (hp : parts.map Part.shape = sss.flatten)
    (acc : Element) :
    Steady (Resolution.fold apply acc parts) fun _ => True := by
  induction sss generalizing parts acc with
  | nil =>
    obtain rfl := List.map_eq_nil_iff.1 hp
    trivial
  | cons as sss ih =>
    obtain ⟨⟨k, rfl⟩, hmore⟩ := List.forall_mem_cons.1 hs
    obtain ⟨op, rest, rfl, hop, hrest⟩ := List.map_eq_cons_iff.1 hp
    obtain ⟨operand, rest, rfl, hoperand, hrest⟩ := List.map_eq_cons_iff.1 hrest
    obtain ⟨t, ht, -⟩ := Part.exists_token hop
    rw [Resolution.fold, ht]
    refine (steady_valueOf hoperand).bind fun x _ => ?_
    exact ((Steady.answered _).haltedAt _).bind fun acc _ => ih hmore hrest acc

/-- A level of operators. -/
theorem steady_operatorChain (apply : Kind → Element → Element → Except Failure Element)
    {operand tail : Form} (h : ElementsAdmit [one operand, many tail] (parts.map Part.shape))
    (hoperand : ∀ ss, Admits operand ss → ss = [.value])
    (htail : ∀ ss, Admits tail ss → ∃ k, ss = [.token k, .value]) :
    Steady (Resolution.operatorChain apply parts) fun a => [a.shape] = [.value] := by
  obtain ⟨as, has, sss, hsss, hparts⟩ := elementsAdmit_tails h
  obtain rfl := hoperand as has
  obtain ⟨p, rest, rfl, hp, hrest⟩ := List.map_eq_cons_iff.1 hparts
  refine (steady_valueOf hp).bind fun acc _ => ?_
  exact (steady_fold apply (fun as ha => htail as (hsss as ha)) hrest acc).map fun e _ => rfl

variable (r : Resolution)

/-- Members and indexes follow one another. -/
theorem steady_laterLinks {sss : List (List Shape)} (hs : ∀ as ∈ sss, Admits .chainTail as)
    (hp : parts.map Part.shape = sss.flatten) (subject : Subject) :
    Steady (r.laterLinks subject parts) fun _ => True := by
  induction sss generalizing parts subject with
  | nil =>
    obtain rfl := List.map_eq_nil_iff.1 hp
    trivial
  | cons as sss ih =>
    obtain ⟨has, hs⟩ := List.forall_mem_cons.1 hs
    have hlink : ∃ p rest, parts = p :: rest ∧ rest.map Part.shape = sss.flatten ∧
        ∀ x, Steady (r.nextLink x p.built) fun _ => True := by
      rcases has with rfl | rfl
      · obtain ⟨⟨place, built⟩, rest, rfl, hp, hrest⟩ := List.map_eq_cons_iff.1 hp
        cases built <;> cases hp
        exact ⟨_, rest, rfl, hrest, fun x => .answered _⟩
      · obtain ⟨⟨place, built⟩, rest, rfl, hp, hrest⟩ := List.map_eq_cons_iff.1 hp
        cases built <;> cases hp
        exact ⟨_, rest, rfl, hrest, fun x => .answered _⟩
    obtain ⟨p, rest, rfl, hrest, hlink⟩ := hlink
    exact ((hlink subject).haltedAt _).bind fun subject _ => ih hs hrest subject

/-- A chain of links. -/
theorem steady_linkChain {head : Form} (h : ElementsAdmit [one head, many .chainTail]
    (parts.map Part.shape))
    (hhead : ∀ ss, Admits head ss → Admits .basic ss) :
    Steady (r.linkChain parts) fun a => [a.shape] = [.value] := by
  obtain ⟨as, has, sss, hsss, hparts⟩ := elementsAdmit_tails h
  have hlink : ∃ p rest, parts = p :: rest ∧ rest.map Part.shape = sss.flatten ∧
      Steady (r.firstLink p.built) fun _ => True := by
    rcases hhead as has with ⟨k, hk, rfl⟩ | rfl | rfl
    · obtain ⟨p, rest, rfl, hp, hrest⟩ := List.map_eq_cons_iff.1 hparts
      obtain ⟨t, ht, rfl⟩ := Part.exists_token hp
      refine ⟨p, rest, rfl, hrest, ?_⟩
      rw [ht, Resolution.firstLink, if_pos hk]
      exact (Steady.answered _).map fun _ _ => trivial
    · obtain ⟨p, rest, rfl, hp, hrest⟩ := List.map_eq_cons_iff.1 hparts
      obtain ⟨e, he⟩ := Part.exists_value hp
      exact ⟨p, rest, rfl, hrest, by rw [he]; trivial⟩
    · obtain ⟨⟨place, built⟩, rest, rfl, hp, hrest⟩ := List.map_eq_cons_iff.1 hparts
      cases built <;> cases hp
      exact ⟨_, rest, rfl, hrest, .answered _⟩
  obtain ⟨p, rest, rfl, hrest, hlink⟩ := hlink
  refine (hlink.haltedAt _).bind fun subject _ => ?_
  refine (steady_laterLinks r hsss hrest subject).bind fun subject _ => ?_
  exact (Steady.answered _).map fun e _ => rfl

theorem steady_mapM_valueOf (h : ∀ p ∈ parts, p.shape = .value) :
    Steady (parts.mapM Resolution.valueOf) fun _ => True := by
  induction parts with
  | nil => trivial
  | cons p parts ih =>
    obtain ⟨hp, h⟩ := List.forall_mem_cons.1 h
    rw [List.mapM_cons]
    exact (steady_valueOf hp).bind fun e _ => (ih h).bind fun es _ => trivial

/-- A form that stands for the only one of its children that is no token. -/
theorem steady_whole (h : (parts.map Part.shape).filter Shape.isBuilt = [.value]) (name : String) :
    Steady (r.combine .expression name parts) fun a => [a.shape] = [.value] := by
  rw [← map_shape_filter] at h
  obtain ⟨p, rest, hparts, hp, -⟩ := List.map_eq_cons_iff.1 h
  simp only [Resolution.combine, hparts]
  exact congrArg (fun s => [s]) hp

/-- A form with a sign that may be missing. -/
theorem steady_signed {form operand : Form} {k : Kind} {name : String}
    (h : ElementsAdmit [maybeTok k, one operand] (parts.map Part.shape))
    (hoperand : ∀ ss, Admits operand ss → ss = [.value])
    (hplain : ∀ place e rest, r.combine form name (⟨place, .value e⟩ :: rest) = .ok (.value e))
    (hsigned : ∀ place t p rest, t.kind = k → p.shape = .value →
      Steady (r.combine form name (⟨place, .token t⟩ :: p :: rest)) fun a => [a.shape] = [.value]) :
    Steady (r.combine form name parts) fun a => [a.shape] = [.value] := by
  rcases elementsAdmit_maybeTok h with hone | hone
  · obtain ⟨as, has, bs, rfl, hparts⟩ := elementsAdmit_one.1 hone
    obtain rfl := hoperand as has
    obtain ⟨⟨place, built⟩, rest, rfl, hp, -⟩ := List.map_eq_cons_iff.1 hparts
    cases built <;> cases hp
    rw [hplain]
    rfl
  · obtain ⟨cs, hmore, hparts⟩ := elementsAdmit_tok.1 hone
    obtain ⟨as, has, bs, rfl, rfl⟩ := elementsAdmit_one.1 hmore
    obtain rfl := hoperand as has
    obtain ⟨⟨place, built⟩, rest, rfl, hq, hrest⟩ := List.map_eq_cons_iff.1 hparts
    obtain ⟨p, rest, rfl, hp, -⟩ := List.map_eq_cons_iff.1 hrest
    obtain ⟨t, rfl, hk⟩ := Part.exists_token hq
    exact hsigned place t p rest hk hp

theorem steady_not (h : ElementsAdmit [maybeTok .not, one .among] (parts.map Part.shape))
    (name : String) :
    Steady (r.combine .not name parts) fun a => [a.shape] = [.value] := by
  refine steady_signed r h (fun _ h => h) (fun _ _ _ => rfl) fun place t p rest hk hp => ?_
  simp only [Resolution.combine, hk]
  exact (steady_valueOf hp).bind fun e _ => (Steady.answered _).map fun _ _ => rfl

theorem steady_negate (h : ElementsAdmit [maybeTok .minus, one .chain] (parts.map Part.shape))
    (name : String) :
    Steady (r.combine .negate name parts) fun a => [a.shape] = [.value] := by
  refine steady_signed r h (fun _ h => h) (fun _ _ _ => rfl) fun place t p rest hk hp => ?_
  simp only [Resolution.combine, hk]
  exact (steady_valueOf hp).bind fun e _ => (Steady.answered _).map fun _ _ => rfl

theorem steady_among (h : ElementsAdmit [one .shift, maybe .amongTail] (parts.map Part.shape))
    (name : String) :
    Steady (r.combine .among name parts) fun a => [a.shape] = [.value] := by
  obtain ⟨as, rfl, bs, htail, hparts⟩ := elementsAdmit_one.1 h
  obtain ⟨p, rest, rfl, hp, hrest⟩ := List.map_eq_cons_iff.1 hparts
  rcases elementsAdmit_maybe htail with hnone | hone
  · obtain rfl : bs = [] := hnone
    obtain rfl := List.map_eq_nil_iff.1 hrest
    exact congrArg (fun s => [s]) hp
  · obtain ⟨cs, hcs, ds, rfl, rfl⟩ := elementsAdmit_one.1 hone
    have htarget : ∃ q place target more, rest = q :: ⟨place, target⟩ :: more ∧
        ∀ x, Steady (r.membership x target) fun _ => True := by
      obtain ⟨k, rfl | rfl⟩ := hcs
      · obtain ⟨q, rest, rfl, -, hrest⟩ := List.map_eq_cons_iff.1 hrest
        obtain ⟨⟨place, built⟩, more, rfl, ht, -⟩ := List.map_eq_cons_iff.1 hrest
        cases built <;> cases ht
        exact ⟨q, place, _, more, rfl, fun x => .answered _⟩
      · obtain ⟨q, rest, rfl, -, hrest⟩ := List.map_eq_cons_iff.1 hrest
        obtain ⟨⟨place, built⟩, more, rfl, ht, -⟩ := List.map_eq_cons_iff.1 hrest
        cases built <;> cases ht
        exact ⟨q, place, _, more, rfl, fun x => .answered _⟩
    obtain ⟨q, place, target, more, rfl, htarget⟩ := htarget
    exact (steady_valueOf hp).bind fun x _ => (htarget x).map fun _ _ => rfl

theorem steady_choice (h : (parts.map Part.shape).filter Shape.isBuilt = [.value, .value, .value])
    (name : String) :
    Steady (r.combine .choice name parts) fun a => [a.shape] = [.value] := by
  rw [← map_shape_filter] at h
  obtain ⟨c, rest, hparts, hc, h⟩ := List.map_eq_cons_iff.1 h
  obtain ⟨t, rest, rfl, ht, h⟩ := List.map_eq_cons_iff.1 h
  obtain ⟨f, rest, rfl, hf, -⟩ := List.map_eq_cons_iff.1 h
  simp only [Resolution.combine, hparts]
  refine (steady_valueOf hc).bind fun c _ => (steady_valueOf ht).bind fun t _ =>
    (steady_valueOf hf).bind fun f _ => ?_
  exact (Steady.answered _).map fun _ _ => rfl

theorem steady_cast (h : (parts.map Part.shape).filter Shape.isBuilt = [.value, .type])
    (name : String) :
    Steady (r.combine .cast name parts) fun a => [a.shape] = [.value] := by
  rw [← map_shape_filter] at h
  obtain ⟨p, rest, hparts, hp, h⟩ := List.map_eq_cons_iff.1 h
  obtain ⟨⟨place, built⟩, rest, rfl, hbuilt, -⟩ := List.map_eq_cons_iff.1 h
  cases built <;> cases hbuilt
  simp only [Resolution.combine, hparts]
  exact (steady_valueOf hp).bind fun e _ => (Steady.answered _).map fun _ _ => rfl

theorem steady_castType (name : String) : Steady (r.combine .castType name parts) fun a =>
    [a.shape] = [.type] :=
  (Steady.answered _).map fun _ _ => rfl

theorem steady_name (h : ElementsAdmit [tok .identifier, maybe .arguments] (parts.map Part.shape))
    (name : String) :
    Steady (r.combine .name name parts) fun a => [a.shape] = [.name] := by
  obtain ⟨bs, htail, hparts⟩ := elementsAdmit_tok.1 h
  obtain ⟨⟨place, built⟩, rest, rfl, hp, hrest⟩ := List.map_eq_cons_iff.1 hparts
  obtain ⟨t, rfl, -⟩ := Part.exists_token hp
  rcases elementsAdmit_maybe htail with hnone | hone
  · obtain rfl : bs = [] := hnone
    obtain rfl := List.map_eq_nil_iff.1 hrest
    rfl
  · obtain ⟨as, rfl, cs, rfl, rfl⟩ := elementsAdmit_one.1 hone
    obtain ⟨⟨place', built⟩, rest, rfl, hq, -⟩ := List.map_eq_cons_iff.1 hrest
    cases built <;> cases hq
    rfl

theorem steady_arguments (h : ElementsAdmit [tok .parenOpen, maybe .argumentList, tok .parenClose]
    (parts.map Part.shape))
    (name : String) : Steady (r.combine .arguments name parts) fun a =>
    [a.shape] = [.arguments] := by
  obtain ⟨bs, htail, hparts⟩ := elementsAdmit_tok.1 h
  obtain ⟨p, rest, rfl, -, hrest⟩ := List.map_eq_cons_iff.1 hparts
  rcases elementsAdmit_maybe htail with hnone | hone
  · obtain ⟨cs, rfl, rfl⟩ := elementsAdmit_tok.1 hnone
    obtain ⟨⟨place, built⟩, rest, rfl, -, hrest⟩ := List.map_eq_cons_iff.1 hrest
    obtain rfl := List.map_eq_nil_iff.1 hrest
    cases built <;> rfl
  · obtain ⟨as, rfl, cs, hclose, rfl⟩ := elementsAdmit_one.1 hone
    obtain ⟨ds, rfl, rfl⟩ := elementsAdmit_tok.1 hclose
    obtain ⟨⟨place, built⟩, rest, rfl, hq, hrest⟩ := List.map_eq_cons_iff.1 hrest
    obtain ⟨q, rest, rfl, -, hrest⟩ := List.map_eq_cons_iff.1 hrest
    obtain rfl := List.map_eq_nil_iff.1 hrest
    cases built <;> cases hq
    rfl

theorem steady_argumentList (h : ElementsAdmit [one .expression, many .argumentTail]
    (parts.map Part.shape))
    (name : String) : Steady (r.combine .argumentList name parts) fun a =>
    [a.shape] = [.arguments] := by
  obtain ⟨as, rfl, sss, hsss, hparts⟩ := elementsAdmit_tails h
  have hvalues : ∀ ss ∈ [Shape.value] :: sss, ∀ s ∈ ss.filter Shape.isBuilt, s = .value := by
    refine List.forall_mem_cons.2 ⟨by simp [Shape.isBuilt], fun ss hss => ?_⟩
    obtain ⟨k, rfl⟩ := hsss ss hss
    simp [Shape.isBuilt]
  refine (steady_mapM_valueOf fun p hp => ?_).map fun _ _ => rfl
  have hshape : p.shape ∈ ((parts.map Part.shape).filter Shape.isBuilt) := by
    rw [← map_shape_filter]
    exact List.mem_map_of_mem hp
  obtain ⟨hmem, hbuilt⟩ := List.mem_filter.1 hshape
  rw [hparts, ← List.flatten_cons] at hmem
  obtain ⟨ss, hss, hmem⟩ := List.mem_flatten.1 hmem
  exact hvalues ss hss _ (List.mem_filter.2 ⟨hmem, hbuilt⟩)

/-- A form with one child between or behind tokens. -/
theorem steady_second {form : Form} {s : Shape} {rest : List Shape} {k : Kind}
    {P : Attribute → Prop} {name : String} (h : parts.map Part.shape = .token k :: s :: rest)
    (hcombine : ∀ p place built more, built.shape = s →
      Steady (r.combine form name (p :: ⟨place, built⟩ :: more)) P) :
    Steady (r.combine form name parts) P := by
  obtain ⟨p, rest, rfl, -, hrest⟩ := List.map_eq_cons_iff.1 h
  obtain ⟨⟨place, built⟩, more, rfl, hbuilt, -⟩ := List.map_eq_cons_iff.1 hrest
  exact hcombine p place built more hbuilt

theorem steady_list (h : ElementsAdmit [tok .parenOpen, one .argumentList, tok .parenClose]
    (parts.map Part.shape))
    (name : String) : Steady (r.combine .list name parts) fun a => [a.shape] = [.list] := by
  simp only [elementsAdmit_tok, elementsAdmit_one, Admits, exists_eq_left, elementsAdmit_nil] at h
  refine steady_second r h fun p place built more hbuilt => ?_
  cases built <;> cases hbuilt
  rfl

theorem steady_index (h : ElementsAdmit [tok .bracketOpen, one .argumentList, tok .bracketClose]
    (parts.map Part.shape))
    (name : String) : Steady (r.combine .index name parts) fun a => [a.shape] = [.index] := by
  simp only [elementsAdmit_tok, elementsAdmit_one, Admits, exists_eq_left, elementsAdmit_nil] at h
  refine steady_second r h fun p place built more hbuilt => ?_
  cases built <;> cases hbuilt
  rfl

theorem steady_member (h : ElementsAdmit [tok .dot, one .name] (parts.map Part.shape))
    (name : String) :
    Steady (r.combine .member name parts) fun a => [a.shape] = [.member] := by
  simp only [elementsAdmit_tok, elementsAdmit_one, Admits, exists_eq_left, elementsAdmit_nil,
    List.append_nil] at h
  refine steady_second r h fun p place built more hbuilt => ?_
  cases built <;> cases hbuilt
  rfl

end Combine

/-- What the children of a hidden rule are built to is what its form can add to its parent. -/
theorem admits_of_hidden : ∀ rule ∈ expressionRules, rule.hidden = true → ∀ es ∈ rule.alternatives,
    ∃ f, Form.ofNumber? rule.id = some f ∧ ∀ ss, ElementsAdmit es ss → Admits f ss := by
  simp only [expressionRules, shown, spliced, List.forall_mem_cons, List.not_mem_nil,
    false_implies, implies_true, and_true, ofNumber?_number, Option.some.injEq, exists_eq_left',
    Bool.false_eq_true, true_implies, true_and]
  simp +contextual [Admits]
  decide

/-- The rule of a form. -/
def ruleOf (f : Form) : Rule := (expressionRules.find? (·.id == f.number)).getD (shown f "" [])

theorem ruleOf_of_mem : ∀ rule ∈ expressionRules,
    (Form.ofNumber? rule.id).map ruleOf = some rule := by
  decide

/-- A node is built from what its children were built to, without a lapse, to what its form can add
to its parent. -/
theorem steady_combine (r : Resolution) {f : Form} (hshown : (ruleOf f).hidden = false)
    {es : List Grammar.Element} (hes : es ∈ (ruleOf f).alternatives) {parts : List Part}
    (h : ElementsAdmit es (parts.map Part.shape)) (name : String) :
    Steady (r.combine f name parts) fun a => Admits f [a.shape] := by
  cases f with
  | expression =>
    obtain rfl : es = [one .xor] := List.mem_singleton.1 hes
    obtain ⟨as, rfl, bs, rfl, hparts⟩ := elementsAdmit_one.1 h
    exact steady_whole r (by rw [hparts]; rfl) name
  | paren =>
    obtain rfl : es = [tok .parenOpen, one .expression, tok .parenClose] := List.mem_singleton.1 hes
    simp only [elementsAdmit_tok, elementsAdmit_one, Admits, exists_eq_left, elementsAdmit_nil] at h
    exact steady_whole r (by rw [h]; rfl) name
  | xor | or | and | shift | compare | sum | product | power =>
    obtain rfl := List.mem_singleton.1 hes
    exact steady_operatorChain _ h (fun _ h => h) (fun _ h => h)
  | not => exact steady_not r (List.mem_singleton.1 hes ▸ h) name
  | negate => exact steady_negate r (List.mem_singleton.1 hes ▸ h) name
  | among => exact steady_among r (List.mem_singleton.1 hes ▸ h) name
  | list => exact steady_list r (List.mem_singleton.1 hes ▸ h) name
  | collection =>
    obtain rfl : es = [one .name, many .chainTail] := List.mem_singleton.1 hes
    exact steady_linkChain r h fun _ h => .inr (.inr h)
  | chain =>
    obtain rfl : es = [one .basic, many .chainTail] := List.mem_singleton.1 hes
    exact steady_linkChain r h fun _ h => h
  | choice =>
    obtain rfl := List.mem_singleton.1 hes
    simp only [elementsAdmit_tok, elementsAdmit_one, Admits, exists_eq_left, elementsAdmit_nil] at h
    exact steady_choice r (by rw [h]; rfl) name
  | cast =>
    obtain rfl := List.mem_singleton.1 hes
    simp only [elementsAdmit_tok, elementsAdmit_one, Admits, exists_eq_left, elementsAdmit_nil] at h
    exact steady_cast r (by rw [h]; rfl) name
  | castType => exact steady_castType r name
  | name => exact steady_name r (List.mem_singleton.1 hes ▸ h) name
  | arguments => exact steady_arguments r (List.mem_singleton.1 hes ▸ h) name
  | argumentList => exact steady_argumentList r (List.mem_singleton.1 hes ▸ h) name
  | member => exact steady_member r (List.mem_singleton.1 hes ▸ h) name
  | index => exact steady_index r (List.mem_singleton.1 hes ▸ h) name
  | _ => exact absurd hshown (by decide)

section Walk

variable (r : Resolution)

theorem buildAll_append (ts us : List Tree) :
    r.buildAll (ts ++ us) = r.buildAll ts >>= fun ps => r.buildAll us >>= fun qs =>
      .ok (ps ++ qs) := by
  induction ts with
  | nil => cases h : r.buildAll us <;> simp [Resolution.buildAll, h] <;> rfl
  | cons t ts ih =>
    rw [List.cons_append, Resolution.buildAll, Resolution.buildAll, ih]
    cases r.build t with
    | error halt => rfl
    | ok a =>
      cases r.buildAll ts with
      | error halt => rfl
      | ok ps => cases r.buildAll us <;> rfl

theorem steady_append {ts us : List Tree} {p q c : Phrase}
    (h : Steady (r.buildAll ts) fun parts => PhraseAdmits (parts.map Part.shape) p)
    (h' : Steady (r.buildAll us) fun parts => PhraseAdmits (parts.map Part.shape) q)
    (himp : ∀ as bs, PhraseAdmits as p → PhraseAdmits bs q → PhraseAdmits (as ++ bs) c) :
    Steady (r.buildAll (ts ++ us)) fun parts => PhraseAdmits (parts.map Part.shape) c := by
  rw [buildAll_append]
  refine h.bind fun ps hps => h'.bind fun qs hqs => ?_
  show PhraseAdmits ((ps ++ qs).map Part.shape) c
  rw [List.map_append]
  exact himp _ _ hps hqs

/-- Trees that a phrase grows are built without a lapse, to what the phrase admits. -/
theorem steady_of_grows {p : Phrase} {ts : List Tree} (h : Grows expressionGrammar p ts) :
    Steady (r.buildAll ts) fun parts => PhraseAdmits (parts.map Part.shape) p := by
  induction h with
  | @rule rule es place ts hr hes _ _ ih =>
    cases hidden : rule.hidden with
    | true =>
      obtain ⟨f, hf, hadmits⟩ := admits_of_hidden rule hr hidden es hes
      exact ih.weaken fun parts hparts => ⟨f, hf, hadmits _ hparts⟩
    | false =>
      obtain ⟨f, hf, rfl⟩ := Option.map_eq_some_iff.1 (ruleOf_of_mem rule hr)
      have hnode : Steady (r.build (.node (ruleOf f).id (ruleOf f).name place ts)) fun a =>
          Admits f [a.shape] := by
        rw [Resolution.build]
        simp only [hf]
        exact ih.bind fun parts hparts => (steady_combine r hidden hes hparts _).haltedAt _
      exact hnode.bind fun a ha => ⟨f, hf, ha⟩
  | nil => rfl
  | cons counts _ _ ih ih' =>
    exact steady_append r ih ih' fun as bs ha hb => ⟨_, as, bs, rfl, counts, ha, hb⟩
  | none => rfl
  | @token e t n ts he _ ih =>
    refine ih.bind fun parts hparts => ?_
    refine ⟨[.token t.kind], parts.map Part.shape, rfl, ?_, hparts⟩
    rw [he]
  | @copy e id n ts us he _ _ ih ih' =>
    refine steady_append r ih ih' fun as bs ha hb => ⟨as, bs, rfl, ?_, hb⟩
    rw [he]
    exact ha

end Walk

/-- The walk over the tree of a text finds all that it takes for granted, however names, types,
literals and operators are resolved; and building the tree in a scope is the walk by the resolution
of the scope. -/
theorem no_lapse_of_parse {l : Lexical.Lexer} {text : Text} {tree : Tree}
    (h : Grammar.parse l text = .ok tree) :
    (∀ (r : Resolution) (halt : Halt), r.element tree = .error halt → halt.lapse? = none) ∧
      ∀ s : Scope, element s tree = outcome ((resolutionOf s).element tree) := by
  refine ⟨fun r halt hhalt => ?_, fun s => (Resolution.outcome_element s tree).symm⟩
  have hwalk : Steady (r.build tree) fun a => a.shape = .value := by
    have hall := steady_of_grows r (Grammar.parse_grows h)
    rw [Resolution.buildAll] at hall
    cases hbuild : r.build tree with
    | error halt =>
      rw [hbuild] at hall
      exact hall
    | ok a =>
      rw [hbuild] at hall
      obtain ⟨f, hf, hshape⟩ := hall
      rw [ofNumber?_number] at hf
      cases hf
      exact List.singleton_inj.1 hshape
  have helement : Steady (r.element tree) fun _ => True := by
    refine hwalk.bind fun a ha => ?_
    cases a <;> cases ha
    trivial
  rw [hhalt] at helement
  exact helement

theorem no_lapse_of_membership : ∃ tree,
    Grammar.parse (.ofOptions {}) (Text.ofString "a in (-1, b[2].c)") = .ok tree ∧
      ∀ (r : Resolution) (halt : Halt), r.element tree = .error halt → halt.lapse? = none := by
  have hparse :
      (Grammar.parse (.ofOptions {}) (Text.ofString "a in (-1, b[2].c)")).isOk = true := by
    rw [Grammar.parse_standing]
    decide +kernel
  obtain ⟨tree, htree⟩ := exists_ok_iff_isOk.2 hparse
  exact ⟨tree, htree, (no_lapse_of_parse htree).1⟩

end Formulary.Build
