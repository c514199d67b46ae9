import Formulary.Proofs.Build.Numerals
import Formulary.Proofs.Build.Resolution

/-!
# Building under other lexical settings

Of the lexical settings, building reads two: the decimal point where a real number is read, and the
format where a date is read. A tree none of whose literals is read differently is built to the same
element, or fails with the same words.
-/

namespace Formulary.Build

open Grammar (Form Tree)
open Lexical (Kind Token)

/-- A literal that two lexical settings read alike: a real number whose numeral comes out the same,
a date of one format or one that both formats read to the same moment, and any other literal. -/
def ReadAlike (l l' : Lexical.Options) (kind : Kind) (image : Text) : Prop :=
  match kind with
  | .real => realBody l image false = realBody l' image false
  | .dateTime => l.dateFormat = l'.dateFormat ∨ ∃ m,
      Calendar.readDate l.dateFormat (inside image) = .ok m ∧
    Calendar.readDate l'.dateFormat (inside image) = .ok m
  | _ => True

section Literals

variable {o : Options} {l : Lexical.Options}

theorem realValue_relexed {image : Text}
    (h : realBody o.lexical image false = realBody l image false) (negated : Bool) :
    realValue { o with lexical := l } image negated = realValue o image negated := by
  have hbody : realBody l image negated = realBody o.lexical image negated := by
    simp only [realBody, Prod.mk.injEq, and_true, Bool.false_eq_true, if_false] at h ⊢
    rw [h]
  have htype : ∀ suffix, realType { o with lexical := l } suffix = realType o suffix := fun _ => rfl
  simp only [realValue, hbody, htype]

/-- Only the numeral of a real number is read by the settings. -/
theorem number_relexed {kind : Kind} {image : Text} (h : ReadAlike o.lexical l kind image)
    (negated : Bool) :
    number { o with lexical := l } kind image negated = number o kind image negated := by
  by_cases hreal : kind = .real
  · subst hreal
    simp only [number, beq_self_eq_true, if_true, realValue_relexed h]
  · simp only [number, beq_eq_false_iff_ne.2 hreal, Bool.false_eq_true, if_false]

theorem literal_relexed {t : Token} (h : ReadAlike o.lexical l t.kind t.image) :
    literal { o with lexical := l } t = literal o t := by
  unfold literal
  dsimp only
  split
  case h_1 | h_2 | h_3 => exact number_relexed h false
  case h_9 hkind =>
    simp only [ReadAlike, hkind] at h
    obtain hformat | ⟨m, hm, hm'⟩ := h
    · rw [hformat]
    · rw [hm, hm']
  all_goals rfl

end Literals

/-- A scope with other lexical settings. -/
def Scope.relexed (s : Scope) (l : Lexical.Options) : Scope :=
  { s with options := { s.options with lexical := l } }

theorem implicit_relexed (s : Scope) (l : Lexical.Options) (e : Element) (t : Ty) :
    (Scope.relexed s l).implicit e t = s.implicit e t := rfl

theorem minus_relexed {s : Scope} {l : Lexical.Options} {e : Element}
    (h : ∀ n, e.numeral? = some n → ReadAlike s.options.lexical l n.kind n.image) :
    minus (Scope.relexed s l) e = minus s e := by
  rw [minus_eq, minus_eq]
  split
  · rename_i n hn
    exact number_relexed (h n hn) true
  · rfl

namespace Resolution

section Relexed

variable (r : Resolution) (literal' : Token → Except Failure Element)
  (minus' : Element → Except Failure Element)

def rereading : Resolution := { r with literal := literal', minus := minus' }

variable {r literal' minus'}

theorem laterLinks_rereading (subject : Subject) (parts : List Part) :
    (r.rereading literal' minus').laterLinks subject parts = r.laterLinks subject parts := by
  induction parts generalizing subject with
  | nil => rfl
  | cons p parts ih =>
    have hlink : (r.rereading literal' minus').nextLink subject p.built =
        r.nextLink subject p.built := by
      cases p.built <;> rfl
    simp only [laterLinks, hlink, ih]

/-- A chain only resolves the literal it starts with. -/
theorem linkChain_rereading {parts : List Part}
    (h : ∀ p ∈ parts, ∀ t, p.built = .token t → literal' t = r.literal t) :
    (r.rereading literal' minus').linkChain parts = r.linkChain parts := by
  cases parts with
  | nil => rfl
  | cons p parts =>
    have hfirst : (r.rereading literal' minus').firstLink p.built = r.firstLink p.built := by
      cases hbuilt : p.built with
      | token t => simp only [firstLink, rereading, h p List.mem_cons_self t hbuilt]
      | _ => rfl
    simp only [linkChain, hfirst, laterLinks_rereading]
    rfl

/-- A node is built alike if the tokens and values of its children are resolved alike. -/
theorem combine_rereading (form : Form) (name : String) {parts : List Part}
    (hliteral : ∀ p ∈ parts, ∀ t, p.built = .token t → literal' t = r.literal t)
    (hminus : ∀ p ∈ parts, ∀ e, p.built = .value e → minus' e = r.minus e) :
    (r.rereading literal' minus').combine form name parts = r.combine form name parts := by
  cases form with
  | chain | collection => exact linkChain_rereading hliteral
  | negate =>
    have hvalue : ∀ p ∈ parts, (valueOf p >>= fun e => (answered (minus' e)).map Attribute.value) =
        valueOf p >>= fun e => (answered (r.minus e)).map Attribute.value := by
      rintro ⟨place, built⟩ hp
      cases built with
      | value e => exact congrArg (fun x => (answered x).map Attribute.value) (hminus _ hp e rfl)
      | _ => rfl
    rcases parts with _ | ⟨⟨place, built⟩, rest⟩
    · rfl
    · cases built with
      | token t =>
        simp only [combine, rereading]
        split
        · exact hvalue _ (by simp)
        · rfl
        · rfl
      | _ => rfl
  | _ => rfl

/-- A node is built alike if its children are and if what they are built to is combined alike. -/
theorem build_node_congr {r r' : Resolution} {rule : Nat} {name : String} {place : Lexical.Place}
    {children : List Tree} (hchildren : r'.buildAll children = r.buildAll children)
    (hcombine : ∀ parts form, r.buildAll children = .ok parts →
      r'.combine form name parts = r.combine form name parts) :
    r'.build (.node rule name place children) = r.build (.node rule name place children) := by
  rw [build, build, hchildren]
  cases hparts : r.buildAll children with
  | error h => rfl
  | ok parts =>
    cases Form.ofNumber? rule with
    | none => rfl
    | some form => exact congrArg (haltedAt place.offset) (hcombine parts form hparts)

end Relexed

end Resolution

section Trees

variable {s : Scope} {l : Lexical.Options}

/-- Apart from literals and minus signs everything is resolved without the lexical settings. -/
theorem resolutionOf_relexed : resolutionOf (Scope.relexed s l) =
    (resolutionOf s).rereading (literal (Scope.relexed s l).options) (minus (Scope.relexed s l)) :=
      rfl

/-- The numeral of an element, if it is one, is read alike. -/
def NumeralAlike (o l : Lexical.Options) (e : Element) : Prop :=
  ∀ n, e.numeral? = some n → ReadAlike o l n.kind n.image

theorem numeralAlike_kept (s : Scope) (l : Lexical.Options) :
    Kept s (fun t => ReadAlike s.options.lexical l t.kind t.image)
      (NumeralAlike s.options.lexical l) fun _ => True := by
  have hblank : ∀ {e : Element}, e.numeral? = none → NumeralAlike s.options.lexical l e := by
    intro e he n hn
    rw [he] at hn
    cases hn
  have hnumber : ∀ {kind image negated e}, ReadAlike s.options.lexical l kind image →
      number s.options kind image negated = .ok e → NumeralAlike s.options.lexical l e := by
    intro kind image negated e halike h
    obtain ⟨v, rfl⟩ := exists_of_number h
    rintro n ⟨⟩
    exact halike
  exact numeral_kept hblank (fun ht h => (literal_cases h).elim hblank (hnumber ht)) fun hx hn h =>
    hnumber (hx _ hn) h

mutual

theorem build_relexed (t : Tree) (ht : ∀ x ∈ t.leaves,
    ReadAlike s.options.lexical l x.kind x.image) :
    (resolutionOf (Scope.relexed s l)).build t = (resolutionOf s).build t := by
  cases t with
  | leaf x => rw [Resolution.build, Resolution.build]
  | node rule name place children =>
    refine Resolution.build_node_congr (buildAll_relexed children ht) fun parts form hparts => ?_
    have hbuilt : buildAll s children = .ok parts := by
      rw [← Resolution.outcome_buildAll, hparts, outcome_ok]
    have hholds := buildAll_holds (numeralAlike_kept s l) children ht hbuilt
    rw [resolutionOf_relexed]
    refine Resolution.combine_rereading form name (fun p hp x hx => ?_) fun p hp e he => ?_
    · have halike := hholds p hp
      rw [hx] at halike
      exact literal_relexed halike
    · have halike := hholds p hp
      rw [he] at halike
      exact minus_relexed halike

theorem buildAll_relexed (ts : List Tree)
    (hts : ∀ x ∈ Tree.leavesOf ts, ReadAlike s.options.lexical l x.kind x.image) :
    (resolutionOf (Scope.relexed s l)).buildAll ts = (resolutionOf s).buildAll ts := by
  cases ts with
  | nil => rw [Resolution.buildAll, Resolution.buildAll]
  | cons t ts =>
    rw [Tree.leavesOf] at hts
    simp only [Resolution.buildAll, build_relexed t fun x hx => hts x (List.mem_append_left _ hx),
      buildAll_relexed ts fun x hx => hts x (List.mem_append_right _ hx)]

end

/-- A tree whose literals are read alike is built alike. -/
theorem element_relexed {t : Tree} (ht : ∀ x ∈ t.leaves,
    ReadAlike s.options.lexical l x.kind x.image) :
    element (Scope.relexed s l) t = element s t := by
  rw [← Resolution.outcome_element, ← Resolution.outcome_element, Resolution.element,
    Resolution.element, build_relexed t ht]

end Trees

end Formulary.Build
