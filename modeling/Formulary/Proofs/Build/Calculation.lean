import Formulary.Proofs.Element.Calculation
import Formulary.Build.Tree

/-!
# Calculations in parse trees

Which trees are calculations with integers: those of integer literals, names, parentheses, sums and
products, at all the levels of the grammar that pass them on. Such a tree is built to the element of
its calculation.
-/

namespace Formulary

open Grammar (Form Tree)
open Lexical (Kind Token)

/-- The operator of arithmetic that a token stands for. -/
def BasicOperator.ofKind? : Kind → Option BasicOperator
  | .plus => some .add
  | .minus => some .subtract
  | .times => some .multiply
  | .divide => some .divide
  | .mod => some .modulo
  | _ => none

inductive Reading where
  | token (t : Token)
  | name (n : String)
  | calculation (c : Calculation)

namespace Reading

/-- A calculation followed by operators and calculations, from the left. -/
def chain? (acc : Calculation) : List Reading → Option Calculation
  | [] => some acc
  | .token t :: .calculation c :: rest => do
    let op ← BasicOperator.ofKind? t.kind
    chain? (.binary op acc c) rest
  | _ => none

def combine? (form : Form) (children : List Reading) : Option Reading :=
  match form, children with
  | .name, [.token t] => some (.name (Build.identifier t.image))
  | .chain, [.token t] =>
    match t.kind with
    | .integer => some (.calculation (.numeral false t.image))
    | .hex => some (.calculation (.numeral true t.image))
    | _ => none
  | .chain, [.name n] => some (.calculation (.named n))
  | .chain, [.calculation c] => some (.calculation c)
  | .paren, [.token _, .calculation c, .token _] => some (.calculation c)
  | .sum, .calculation c :: rest
  | .product, .calculation c :: rest => (chain? c rest).map .calculation
  | .expression, [.calculation c] | .xor, [.calculation c] | .or, [.calculation c]
  | .and, [.calculation c]
  | .not, [.calculation c] | .among, [.calculation c] | .shift, [.calculation c]
  | .compare, [.calculation c]
  | .power, [.calculation c] | .negate, [.calculation c] => some (.calculation c)
  | _, _ => none

mutual

def ofTree? : Tree → Option Reading
  | .leaf t => some (.token t)
  | .node rule _ _ children => do
    let readings ← ofTrees? children
    let form ← Form.ofNumber? rule
    combine? form readings

/-- What the children of a node are within a calculation. -/
def ofTrees? : List Tree → Option (List Reading)
  | [] => some []
  | t :: rest => do
    let r ← ofTree? t
    let rs ← ofTrees? rest
    some (r :: rs)

end

/-- What a tree is built to, if it is part of a calculation. -/
def Matches (s : Scope) : Reading → Build.Attribute → Prop
  | .token t, .token u => u = t
  | .name n, .name r => r = ⟨n, none⟩
  | .calculation c, .value e => c.element? s = some e
  | _, _ => False

end Reading

def Grammar.Tree.calculation? (t : Tree) : Option Calculation :=
  match Reading.ofTree? t with
  | some (.calculation c) => some c
  | _ => none

namespace Reading

open Build

variable {s : Scope}

theorem Matches.value {c : Calculation} {a : Attribute} (h : Matches s (.calculation c) a) :
    ∃ e, a = .value e ∧ c.element? s = some e := by
  cases a with
  | value e => exact ⟨e, rfl, h⟩
  | _ => cases h

theorem Matches.is_token {t : Token} {a : Attribute} (h : Matches s (.token t) a) :
    a = .token t := by
  cases a with
  | token u => exact congrArg _ h
  | _ => cases h

theorem Matches.is_name {n : String} {a : Attribute} (h : Matches s (.name n) a) :
    a = .name ⟨n, none⟩ := by
  cases a with
  | name r => exact congrArg _ h
  | _ => cases h

theorem operatorOf_ofKind? {k : Kind} {op : BasicOperator} (h : BasicOperator.ofKind? k = some op) :
    operatorOf k = op.operator := by
  cases k <;> cases h <;> rfl

/-- A chain of operators is folded as its calculation says. -/
theorem fold_matches {acc c : Calculation} {e e' : Element} {rs : List Reading} {ps : List Part}
    (hacc : acc.element? s = some e) (hps : List.Forall₂ (fun r p => Matches s r p.built) rs ps)
    (hc : chain? acc rs = some c) (h : fold (fun k => arithmetic s (operatorOf k)) e ps = .ok e') :
    c.element? s = some e' := by
  induction acc, rs using chain?.induct generalizing e ps with
  | case1 acc =>
    cases hps
    cases hc
    cases h
    exact hacc
  | case2 acc t d rest ih =>
    obtain ⟨op, hop, hc⟩ := Option.bind_eq_some_iff.1 hc
    cases hps with
    | cons ht hps =>
      cases hps with
      | cons hd hps =>
        rename_i p q ps
        obtain ⟨x, hx, hdx⟩ := hd.value
        rw [fold, ht.is_token] at h
        simp only [Part.element, hx] at h
        obtain ⟨y, hy, h⟩ := bind_eq_ok.1 h
        cases hy
        obtain ⟨z, hz, h⟩ := bind_eq_ok.1 h
        rw [placedAt_eq_ok, operatorOf_ofKind? hop] at hz
        refine ih op ?_ hps hc h
        simp [Calculation.element?, hacc, hdx, hz, Except.toOption]
  | case3 acc rs hnil hcons =>
    rw [chain?.eq_3 _ _ hnil hcons] at hc
    cases hc

theorem operatorChain_matches {c d : Calculation} {rs : List Reading}
    {ps : List Part} {a : Attribute}
    (hps : List.Forall₂ (fun r p => Matches s r p.built) (.calculation c :: rs) ps)
    (hd : chain? c rs = some d)
    (h : operatorChain (fun k => arithmetic s (operatorOf k)) ps = .ok a) :
    Matches s (.calculation d) a := by
  cases hps with
  | cons hp hps =>
    obtain ⟨x, hx, hcx⟩ := hp.value
    simp only [operatorChain, Part.element, hx] at h
    obtain ⟨y, hy, h⟩ := bind_eq_ok.1 h
    cases hy
    obtain ⟨e, he, rfl⟩ := map_eq_ok.1 h
    exact fold_matches hcx hps hd he

/-- A level of the grammar with one operand passes it on. -/
theorem operatorChain_single {apply : Kind → Element → Element → Except Failure Element}
    {c : Calculation} {p : Part} {a : Attribute} (hp : Matches s (.calculation c) p.built)
    (h : operatorChain apply [p] = .ok a) :
    Matches s (.calculation c) a := by
  obtain ⟨x, hx, hcx⟩ := hp.value
  simp only [operatorChain, Part.element, hx] at h
  obtain ⟨y, hy, h⟩ := bind_eq_ok.1 h
  cases hy
  cases h
  exact hcx

/-- A chain of one link is a literal, a variable or a calculation in parentheses. -/
theorem linkChain_matches {r q : Reading} {p : Part} {a : Attribute} (hp : Matches s r p.built)
    (hc : combine? .chain [r] = some q) (h : linkChain s [p] = .ok a) : Matches s q a := by
  obtain ⟨subject, hfirst, h⟩ := bind_eq_ok.1 h
  obtain ⟨_, hlater, h⟩ := bind_eq_ok.1 h
  cases hlater
  obtain ⟨e, he, rfl⟩ := map_eq_ok.1 h
  rw [placedAt_eq_ok] at hfirst
  cases r with
  | token t =>
    rw [hp.is_token] at hfirst
    obtain ⟨x, hx, rfl⟩ := map_eq_ok.1 hfirst
    cases he
    simp only [combine?] at hc
    unfold literal at hx
    split at hc
    · rename_i hkind
      cases hc
      simp only [hkind] at hx
      simp [Matches, Calculation.element?, hx, Except.toOption]
    · rename_i hkind
      cases hc
      simp only [hkind] at hx
      simp [Matches, Calculation.element?, hx, Except.toOption]
    · cases hc
  | name n =>
    cases hc
    rw [hp.is_name] at hfirst
    have hname : firstName s n = .ok subject := hfirst
    simp [Matches, Calculation.element?, hname, Except.bind, he, Except.toOption]
  | calculation d =>
    cases hc
    obtain ⟨x, hx, hcx⟩ := hp.value
    rw [hx] at hfirst
    cases hfirst
    cases he
    exact hcx

theorem eq_singleton {r : Reading} {ps : List Part}
    (h : List.Forall₂ (fun r p => Matches s r p.built) [r] ps) :
    ∃ p, ps = [p] ∧ Matches s r p.built := by
  cases h with
  | cons hp h =>
    cases h
    exact ⟨_, rfl, hp⟩

/-- What a node is built to matches what it is. -/
theorem combine_matches {form : Form} {name : String} {rs : List Reading} {r : Reading}
    {ps : List Part} {a : Attribute}
    (hps : List.Forall₂ (fun r p => Matches s r p.built) rs ps) (hr : combine? form rs = some r)
    (h : combine s form name ps = .ok a) : Matches s r a := by
  unfold combine? at hr
  split at hr
  · obtain ⟨⟨place, built⟩, rfl, hp⟩ := eq_singleton hps
    obtain rfl := hp.is_token
    cases hr
    cases h
    rfl
  · obtain ⟨p, rfl, hp⟩ := eq_singleton hps
    exact linkChain_matches hp hr h
  · obtain ⟨p, rfl, hp⟩ := eq_singleton hps
    exact linkChain_matches hp hr h
  · obtain ⟨p, rfl, hp⟩ := eq_singleton hps
    exact linkChain_matches hp hr h
  · cases hps with
    | cons hopen hps =>
      cases hps with
      | cons hp hps =>
        obtain ⟨last, rfl, hclose⟩ := eq_singleton hps
        obtain ⟨x, hx, hcx⟩ := hp.value
        cases hr
        simp only [combine, List.filter, Part.isBuilt, hopen.is_token, hx, hclose.is_token] at h
        cases h
        exact hcx
  · obtain ⟨d, hd, rfl⟩ := Option.map_eq_some_iff.1 hr
    exact operatorChain_matches hps hd h
  · obtain ⟨d, hd, rfl⟩ := Option.map_eq_some_iff.1 hr
    exact operatorChain_matches hps hd h
  -- the levels that only pass on their operand
  all_goals cases hr
  all_goals
    obtain ⟨⟨place, built⟩, rfl, hp⟩ := eq_singleton hps
    first
    | exact operatorChain_single hp h
    | obtain ⟨x, rfl, hcx⟩ := hp.value
      cases h
      exact hcx

mutual

/-- A tree that is part of a calculation is built to what it is. -/
theorem build_matches (t : Tree) {r : Reading} {a : Attribute} (hr : ofTree? t = some r)
    (h : build s t = .ok a) :
    Matches s r a := by
  cases t with
  | leaf u =>
    cases hr
    cases h
    rfl
  | node rule name place children =>
    obtain ⟨rs, hrs, hr⟩ := Option.bind_eq_some_iff.1 hr
    obtain ⟨form, hform, hr⟩ := Option.bind_eq_some_iff.1 hr
    obtain ⟨ps, hps, h⟩ := bind_eq_ok.1 h
    rw [placedAt_eq_ok, hform] at h
    exact combine_matches (buildAll_matches children hrs hps) hr h

theorem buildAll_matches (ts : List Tree) {rs : List Reading} {ps : List Part}
    (hrs : ofTrees? ts = some rs)
    (h : buildAll s ts = .ok ps) : List.Forall₂ (fun r p => Matches s r p.built) rs ps := by
  cases ts with
  | nil =>
    cases hrs
    cases h
    exact .nil
  | cons t ts =>
    obtain ⟨r, hr, hrs⟩ := Option.bind_eq_some_iff.1 hrs
    obtain ⟨rs, hrs', hrs⟩ := Option.bind_eq_some_iff.1 hrs
    cases hrs
    obtain ⟨a, ha, h⟩ := bind_eq_ok.1 h
    obtain ⟨ps, hps, h⟩ := bind_eq_ok.1 h
    cases h
    exact .cons (build_matches t hr ha) (buildAll_matches ts hrs' hps)

end

end Reading

/-- The tree of a calculation is built to the element of the calculation. -/
theorem Build.element_calculation {s : Scope} {t : Tree} {c : Calculation} {e : Element}
    (hc : t.calculation? = some c)
    (h : Build.element s t = .ok e) : c.element? s = some e := by
  unfold Tree.calculation? at hc
  split at hc
  · rename_i hr
    cases hc
    obtain ⟨a, ha, h⟩ := bind_eq_ok.1 h
    obtain ⟨x, rfl, hx⟩ := (Reading.build_matches t hr ha).value
    cases h
    exact hx
  · cases hc

end Formulary
