import Formulary.Proofs.Build.Agreement
import Formulary.Proofs.Build.Orderly

/-!
# Building halts with compile errors that point into the text

A walk over a tree halts at a lapse or where the resolution refuses. The tree of a text has no
lapse, and the resolution of a scope refuses with compile errors, so these are the only failures of
building the tree of a text. They have no position when they come up; each is given that of an
operator, of a link of a chain or of a node around it, and all of these start where a token starts.
-/

namespace Formulary.Build

open Grammar (Form Tree)
open Lexical (Kind)

/-- A walk that gives what is as it should be, or halts at a lapse, with a compile error of meaning
or, under a condition, with a breakdown. -/
def Halts {α : Type} (position : Option Nat → Prop) (breaks : Prop) (x : Except Halt α)
    (P : α → Prop) : Prop :=
  match x with
  | .ok a => P a
  | .error h => h.lapse? = none → h.failure.Settled position breaks

/-- No position, or one among given ones. -/
def Loose (starts : List Nat) (p : Option Nat) : Prop := ∀ n ∈ p, n ∈ starts

def Placed (starts : List Nat) (p : Option Nat) : Prop := ∃ n ∈ starts, p = some n

namespace Halts

variable {α β : Type} {P : α → Prop} {Q : β → Prop} {x : Except Halt α} {breaks : Prop}
  {position : Option Nat → Prop}
  {starts : List Nat} {start : Nat}

theorem bind (h : Halts position breaks x P) {f : α → Except Halt β}
    (hf : ∀ a, P a → Halts position breaks (f a) Q) :
    Halts position breaks (x >>= f) Q := by
  cases x with
  | ok a => exact hf a h
  | error e => exact h

theorem map (h : Halts position breaks x P) {f : α → β} (hf : ∀ a, P a → Q (f a)) :
    Halts position breaks (x.map f) Q := by
  cases x with
  | ok a => exact hf a h
  | error e => exact h

theorem lapsed (l : Lapse) : Halts position breaks (lapsed l) P := nofun

theorem answered {y : Except Failure α} (h : Fresh breaks y P) :
    Halts (Loose starts) breaks (answered y) P := by
  cases y with
  | ok a => exact h
  | error f =>
    rintro -
    rcases h with ⟨e, he, hreason, hposition⟩ | hbroken
    · refine .inl ⟨e, he, hreason, ?_⟩
      rw [hposition]
      exact nofun
    · exact .inr hbroken

/-- A halt at a given position is at it, or where it was before. -/
theorem placed (h : Halts (Loose starts) breaks x P) (hstart : start ∈ starts) :
    Halts (Placed starts) breaks (haltedAt start x) P := by
  cases x with
  | ok a => exact h
  | error halt =>
    intro hlapse
    obtain ⟨e, he, hreason, hposition⟩ | ⟨⟨words, hwords⟩, hbreaks⟩ := h hlapse
    · refine .inl ⟨e.placed start, congrArg (Failure.placed start) he, hreason, ?_⟩
      rw [CompileError.placed]
      cases hp : e.position with
      | none => exact ⟨start, hstart, rfl⟩
      | some n => exact ⟨n, hposition n hp, rfl⟩
    · exact .inr ⟨⟨words, congrArg (Failure.placed start) hwords⟩, hbreaks⟩

theorem loose (h : Halts (Placed starts) breaks x P) : Halts (Loose starts) breaks x P := by
  cases x with
  | ok a => exact h
  | error halt =>
    intro hlapse
    obtain ⟨e, he, hreason, n, hn, hposition⟩ | hbroken := h hlapse
    · refine .inl ⟨e, he, hreason, ?_⟩
      rw [hposition]
      rintro _ ⟨⟩
      exact hn
    · exact .inr hbroken

theorem haltedAt (h : Halts (Loose starts) breaks x P) (hstart : start ∈ starts) :
    Halts (Loose starts) breaks (haltedAt start x) P := (h.placed hstart).loose

end Halts

section Walk

variable {s : Scope} {breaks : Prop} {starts : List Nat} {position : Option Nat → Prop}
  {parts : List Part}

/-- Whether parts start at given positions. -/
def StartIn (starts : List Nat) (parts : List Part) : Prop := ∀ p ∈ parts, p.place.offset ∈ starts

theorem halts_valueOf (p : Part) : Halts position breaks (Resolution.valueOf p) fun _ => True := by
  unfold Resolution.valueOf
  split
  · trivial
  · exact .lapsed _

theorem halts_fold {apply : Kind → Element → Element → Except Failure Element}
    (happly : ∀ k l r, Fresh breaks (apply k l r) fun _ => True) :
    ∀ (acc : Element) (parts : List Part), StartIn starts parts →
      Halts (Loose starts) breaks (Resolution.fold apply acc parts) fun _ => True
  | _, [], _ => trivial
  | _, [_], _ => trivial
  | acc, op :: operand :: rest, hparts => by
    obtain ⟨hop, -, hrest⟩ := List.forall_mem_cons.1 hparts |>.imp_right List.forall_mem_cons.1
    rw [Resolution.fold]
    cases op.built with
    | token t =>
      refine (halts_valueOf operand).bind fun r _ => ?_
      exact ((Halts.answered (happly t.kind acc r)).haltedAt hop).bind fun a _ =>
        halts_fold happly a rest hrest
    | _ => exact .lapsed _

theorem halts_operatorChain {apply : Kind → Element → Element → Except Failure Element}
    (happly : ∀ k l r, Fresh breaks (apply k l r) fun _ => True) (hparts : StartIn starts parts) :
    Halts (Loose starts) breaks (Resolution.operatorChain apply parts) fun _ => True := by
  cases parts with
  | nil => exact .lapsed _
  | cons p rest =>
    refine (halts_valueOf p).bind fun acc _ => ?_
    exact (halts_fold happly acc rest (List.forall_mem_cons.1 hparts).2).map fun _ _ => trivial

theorem halts_mapM_valueOf (parts : List Part) :
    Halts (Loose starts) breaks (parts.mapM Resolution.valueOf) fun _ => True := by
  induction parts with
  | nil => trivial
  | cons p parts ih =>
    rw [List.mapM_cons]
    exact (halts_valueOf p).bind fun _ _ => ih.bind fun _ _ => trivial

theorem halts_membership (operand : Element) (target : Attribute) :
    Halts (Loose starts) breaks ((resolutionOf s).membership operand target) fun _ => True := by
  cases target with
  | list items => exact .answered (fresh_amongList operand items)
  | value collection => exact .answered (fresh_amongCollection operand collection)
  | _ => exact .lapsed _

theorem halts_castType (parts : List Part) : Halts (Loose starts) breaks
    ((resolutionOf s).castType parts) fun _ => True := by
  refine Halts.map (P := fun _ => True) (.answered ?_) fun _ _ => trivial
  dsimp only [resolutionOf]
  split
  · trivial
  · exact .refusedAt rfl ..

variable (regular : ¬breaks → s.Regular)

include regular

theorem halts_firstLink (a : Attribute) : Halts (Loose starts) breaks ((resolutionOf s).firstLink a)
    (Reached s) := by
  cases a with
  | token t =>
    rw [Resolution.firstLink]
    split
    · rename_i hliteral
      exact (Halts.answered (fresh_literal s.options hliteral)).map fun _ _ => trivial
    · exact .lapsed _
  | name r => exact .answered (fresh_first regular r)
  | value e => trivial
  | _ => exact .lapsed _

theorem halts_laterLinks {subject : Subject} (hs : Reached s subject)
    (hparts : StartIn starts parts) :
    Halts (Loose starts) breaks ((resolutionOf s).laterLinks subject parts) (Reached s) := by
  induction parts generalizing subject with
  | nil => exact hs
  | cons p parts ih =>
    have hnext : Halts (Loose starts) breaks ((resolutionOf s).nextLink subject p.built)
        (Reached s) := by
      cases p.built with
      | member r => exact .answered (fresh_next regular hs r)
      | index es => exact .answered (fresh_index hs es)
      | _ => exact .lapsed _
    obtain ⟨hp, hrest⟩ := List.forall_mem_cons.1 hparts
    exact (hnext.haltedAt hp).bind fun subject' hs' => ih hs' hrest

theorem halts_linkChain (hparts : StartIn starts parts) :
    Halts (Loose starts) breaks ((resolutionOf s).linkChain parts) fun _ => True := by
  cases parts with
  | nil => exact .lapsed _
  | cons p rest =>
    obtain ⟨hp, hrest⟩ := List.forall_mem_cons.1 hparts
    refine ((halts_firstLink regular p.built).haltedAt hp).bind fun subject hs => ?_
    refine (halts_laterLinks regular hs hrest).bind fun last _ => ?_
    exact (Halts.answered (fresh_settle last)).map fun _ _ => trivial

/-- A node halts at a lapse or with a compile error, perhaps at the start of one of its parts. -/
theorem halts_combine (form : Form) (name : String) (hparts : StartIn starts parts) :
    Halts (Loose starts) breaks ((resolutionOf s).combine form name parts) fun _ => True := by
  cases form with
  | xor | or | and =>
    exact halts_operatorChain (fun k l r => fresh_logical (operatorOf k) l r) hparts
  | shift => exact halts_operatorChain (fun k l r => fresh_shift (k == .shiftLeft) l r) hparts
  | compare => exact halts_operatorChain (fun k l r => fresh_compare (operatorOf k) l r) hparts
  | sum | product | power =>
    exact halts_operatorChain (fun k l r => fresh_arithmetic (operatorOf k) l r) hparts
  | collection | chain => exact halts_linkChain regular hparts
  | castType => exact halts_castType parts
  | not =>
    simp only [Resolution.combine]
    split
    · split
      · exact (halts_valueOf _).bind fun e _ =>
          (Halts.answered (fresh_negation e)).map fun _ _ => trivial
      · exact .lapsed _
      · exact .lapsed _
    · trivial
    · exact .lapsed _
  | negate =>
    simp only [Resolution.combine]
    split
    · split
      · exact (halts_valueOf _).bind fun e _ =>
          (Halts.answered (fresh_minus e)).map fun _ _ => trivial
      · exact .lapsed _
      · exact .lapsed _
    · trivial
    · exact .lapsed _
  | among =>
    simp only [Resolution.combine]
    split
    · trivial
    · exact (halts_valueOf _).bind fun x _ => (halts_membership x _).map fun _ _ => trivial
    · exact .lapsed _
  | choice =>
    simp only [Resolution.combine]
    split
    · exact (halts_valueOf _).bind fun c _ => (halts_valueOf _).bind fun t _ =>
        (halts_valueOf _).bind fun f _ =>
        (Halts.answered (fresh_choice c t f)).map fun _ _ => trivial
    · exact .lapsed _
  | cast =>
    simp only [Resolution.combine]
    split
    · exact (halts_valueOf _).bind fun e _ =>
        (Halts.answered (fresh_cast e _)).map fun _ _ => trivial
    · exact .lapsed _
    · exact .lapsed _
  | argumentList => exact (halts_mapM_valueOf _).map fun _ _ => trivial
  | _ =>
    simp only [Resolution.combine]
    repeat' split
    all_goals first | trivial | exact Halts.lapsed _

omit regular

mutual

/-- A tree halts where it or one of the trees in it starts. -/
theorem halts_build (regular : ¬breaks → s.Regular) (t : Tree) (ht : ∀ n ∈ t.starts, n ∈ starts) :
    Halts (Placed starts) breaks ((resolutionOf s).build t) fun _ => True := by
  cases t with
  | leaf token => trivial
  | node rule name place children =>
    rw [Tree.starts] at ht
    obtain ⟨hplace, hchildren⟩ := List.forall_mem_cons.1 ht
    rw [Resolution.build]
    refine (halts_buildAll regular children hchildren).bind fun parts hparts =>
      Halts.placed ?_ hplace
    split
    · exact halts_combine regular _ name hparts
    · exact .lapsed _

theorem halts_buildAll (regular : ¬breaks → s.Regular) (ts : List Tree)
    (hts : ∀ n ∈ Tree.startsOf ts, n ∈ starts) :
    Halts (Placed starts) breaks ((resolutionOf s).buildAll ts) (StartIn starts) := by
  cases ts with
  | nil => exact nofun
  | cons t ts =>
    rw [Tree.startsOf] at hts
    obtain ⟨ht, hts⟩ := List.forall_mem_append.1 hts
    refine (halts_build regular t ht).bind fun a _ =>
      (halts_buildAll regular ts hts).bind fun parts hparts => ?_
    exact List.forall_mem_cons.2 ⟨ht _ (t.place_mem_starts), hparts⟩

end

/-- The tree of a text is built to an element, or there is a compile error of meaning at the start
of a token. -/
theorem settled_element (regular : ¬breaks → s.Regular) {l : Lexical.Lexer}
    {text : Text} {tree : Tree}
    (h : Grammar.parse l text = .ok tree) {f : Failure} (hf : element s tree = .error f) :
    f.Settled (Placed ((l.tokenize text).1.map (·.place.offset))) breaks := by
  -- The walk has no lapse, since the tree is one that the grammar grows, so it halts where the
  -- scope refuses.
  have hsteady := steady_of_grows (resolutionOf s) (Grammar.parse_grows h)
  have hhalts := halts_build regular tree (Grammar.starts_of_parse h)
  rw [← Resolution.outcome_element s tree, Resolution.element] at hf
  rw [Resolution.buildAll] at hsteady
  cases hbuild : (resolutionOf s).build tree with
  | error halt =>
    rw [hbuild] at hsteady hhalts hf
    cases hf
    exact hhalts hsteady
  | ok a =>
    rw [hbuild] at hsteady hf
    obtain ⟨f, hform, hshape⟩ := hsteady
    rw [ofNumber?_number] at hform
    cases hform
    have hvalue : a.shape = .value := List.singleton_inj.1 hshape
    cases a <;> cases hvalue
    cases hf

/-- In a scope that can be declared, the tree of a text is built to an element, or there is a
compile error. -/
theorem orderly_element (regular : s.Regular) {l : Lexical.Lexer} {text : Text} {tree : Tree}
    (h : Grammar.parse l text = .ok tree) : Orderly (element s tree) fun _ => True := by
  cases helement : element s tree with
  | ok e => trivial
  | error f =>
    obtain ⟨e, he, -⟩ | ⟨-, hfalse⟩ := settled_element (show ¬False → s.Regular from fun _ =>
      regular) h helement
    · exact ⟨e, he⟩
    · exact hfalse.elim

end Walk

end Formulary.Build
