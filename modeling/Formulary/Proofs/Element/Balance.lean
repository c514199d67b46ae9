import Formulary.Proofs.Build.Resolved
import Formulary.Proofs.Element.Compilation
import Formulary.Proofs.Element.Layout

/-!
# Balanced programs

How many values each step takes from the stack and gives back. The program of an element that was
built comes to each of its positions with one height of the stack, whatever way it takes, so no step
finds too few values and the run ends with exactly one.
-/

namespace Formulary

open Machine Machine.Lines

namespace Instruction

/-- The number of values an instruction takes, or looks at, from the top of the stack. -/
@[simp] def takes : Instruction → Nat
  | .owner | .variable _ _ => 0
  | .convert .. | .unary _ _ | .duplicate | .read _ => 1
  | .binary _ _ | .contains _ | .index _ => 2
  | .call _ _ _ count | .demand _ _ count => count
  | .invoke _ _ _ count => count + 1

@[simp] def gives : Instruction → Nat
  | .duplicate => 2
  | _ => 1

/-- A result put on the rest of the stack. -/
theorem length_pushed {x : Eval Value} {rest stack' : Stack} {t t' : Tally}
    (h : (do pure ((← x) :: rest) : Eval Stack).run t = (.ok stack', t')) :
    stack'.length = rest.length + 1 := by
  obtain ⟨r, u, -, h⟩ := run_bind_eq_ok.1 h
  obtain ⟨rfl, -⟩ := run_pure_eq_ok.1 h
  rfl

theorem length_popMany {count : Nat} {stack rest : Stack} {args : List Value} {t t' : Tally}
    (h : (popMany count stack).run t = (.ok (args, rest), t')) :
    rest.length + count = stack.length := by
  unfold popMany at h
  split at h
  · exact absurd h run_breakdown_ne_ok
  · obtain ⟨heq, -⟩ := run_pure_eq_ok.1 h
    obtain ⟨-, rfl⟩ := Prod.mk.inj heq
    rw [List.length_drop]
    omega

/-- An instruction that succeeds found the values it takes and put its results in their place. -/
theorem length_perform {env : Environment} {i : Instruction} {stack stack' : Stack} {t t' : Tally}
    (h : (i.perform env stack).run t = (.ok stack', t')) :
    i.takes ≤ stack.length ∧ stack'.length + i.takes = stack.length + i.gives := by
  cases i with
  | owner =>
    obtain ⟨rfl, -⟩ := run_pure_eq_ok.1 h
    exact ⟨Nat.zero_le _, rfl⟩
  | «variable» name ty => exact ⟨Nat.zero_le _, length_pushed h⟩
  | convert | unary | read =>
    cases stack with
    | nil => exact absurd h run_breakdown_ne_ok
    | cons v rest =>
      have hlength := length_pushed h
      simp only [takes, gives, List.length_cons]
      omega
  | duplicate =>
    cases stack with
    | nil => exact absurd h run_breakdown_ne_ok
    | cons v rest =>
      obtain ⟨rfl, -⟩ := run_pure_eq_ok.1 h
      exact ⟨Nat.succ_le_succ (Nat.zero_le _), rfl⟩
  | contains ty =>
    match stack with
    | [] => exact absurd h run_breakdown_ne_ok
    | [v] => exact absurd h run_breakdown_ne_ok
    | v :: w :: rest =>
      obtain ⟨found, u, -, h⟩ := run_bind_eq_ok.1 h
      obtain ⟨rfl, -⟩ := run_pure_eq_ok.1 h
      exact ⟨Nat.succ_le_succ (Nat.succ_le_succ (Nat.zero_le _)), rfl⟩
  | binary | index =>
    match stack with
    | [] => exact absurd h run_breakdown_ne_ok
    | [v] => exact absurd h run_breakdown_ne_ok
    | v :: w :: rest =>
      have hlength := length_pushed h
      simp only [takes, gives, List.length_cons]
      omega
  | call name fn spread count =>
    obtain ⟨⟨args, rest⟩, u, hpop, h⟩ := run_bind_eq_ok.1 h
    have hpop := length_popMany hpop
    have hlength := length_pushed h
    simp only [takes, gives]
    omega
  | demand name ty count =>
    obtain ⟨⟨args, rest⟩, u, hpop, h⟩ := run_bind_eq_ok.1 h
    have hpop := length_popMany hpop
    have hlength := length_pushed h
    simp only [takes, gives]
    omega
  | invoke name signature spread count =>
    obtain ⟨⟨args, rest⟩, u, hpop, h⟩ := run_bind_eq_ok.1 h
    have hpop := length_popMany hpop
    cases rest with
    | nil => exact absurd h run_breakdown_ne_ok
    | cons v rest =>
      have hlength := length_pushed h
      simp only [List.length_cons] at hpop
      simp only [takes, gives]
      omega

end Instruction

/-- The number of values a step takes, or looks at, from the top of the stack. -/
def Machine.Step.takes {τ : Type} : Step τ Instruction → Nat
  | .push _ | .jump _ => 0
  | .drop | .jumpIf _ _ => 1
  | .act i => i.takes

/-- Heights of the stack as layouts: all values are of one kind. -/
def heights : Discipline Instruction Unit where
  decides _ := True
  pushes _ _ := True
  acts i s t := i.takes ≤ s.length ∧ t.length + i.takes = s.length + i.gives

@[simp] theorem heights_acts {i : Instruction} {s t : List Unit} :
    heights.acts i s t ↔ i.takes ≤ s.length ∧ t.length + i.takes = s.length + i.gives := Iff.rfl

theorem heights_sound (env : Environment) : heights.Sound (Instruction.perform env) fun _ _ =>
    True where
  push _ _ _ := trivial
  act i s s' stack stack' t t' hacts hs hrun := by
    have hlength := hs.length_eq
    have hrun := Instruction.length_perform hrun
    rw [heights_acts] at hacts
    refine List.forall₂_iff_get.2 ⟨by omega, fun _ _ _ => trivial⟩

/-- A step finds the values it takes wherever the stack has the height of its position. -/
theorem takes_le {p : Program Instruction} {layout : Nat → List Unit}
    (h : p.Charted heights layout) {i : Nat}
    {x : Step Nat Instruction} (hx : p.steps[i]? = some x) : x.takes ≤ (layout i).length := by
  cases x with
  | push v => exact Nat.zero_le _
  | drop =>
    obtain ⟨a, ha⟩ := h.falls i _ hx rfl
    rw [ha]
    exact Nat.succ_le_succ (Nat.zero_le _)
  | jump target => exact Nat.zero_le _
  | jumpIf wanted target =>
    obtain ⟨a, -, ha⟩ := h.falls i _ hx rfl
    rw [ha]
    exact Nat.succ_le_succ (Nat.zero_le _)
  | act a => exact (h.falls i _ hx rfl).1

namespace Element

/-- Elements that leave one value: those that keep the typing rules, and the owner. A duplicate
needs a value before it. -/
def Sole (s : Scope) (last : Option Unit) (e : Element) (_ : Unit) : Prop :=
  (∃ t : Option Ty, (t.isSome → last.isSome) ∧ Typed s t e) ∨ ∃ o, e = .owner o

section Sole

variable {s : Scope} {last : Option Unit}

theorem sole {e : Element} (h : Typed s none e) : Sole s last e () := .inl ⟨none, nofun, h⟩

theorem sole_args {args : List Element} (h : ∀ a ∈ args, Typed s none a) :
    KindAll (Sole s) last args (args.map fun _ => ()) :=
  .of_forall (fun a ha _ => sole (h a ha)) last

theorem sole_kinding (s : Scope) : Kinding heights (Sole s) where
  constant _ := trivial
  convertNone h := by
    rcases h with ⟨t, ht, h⟩ | ⟨o, h⟩
    · cases h with
      | convert he _ => exact .inl ⟨t, ht, he⟩
    · cases h
  convertSome h := by
    rcases h with ⟨t, ht, h⟩ | ⟨o, h⟩
    · cases h with
      | convert he _ => exact ⟨(), .inl ⟨t, ht, he⟩, fun s => by simp⟩
    · cases h
  unary h := by
    rcases h with ⟨t, ht, h⟩ | ⟨o, h⟩
    · cases h with
      | unary he _ => exact ⟨(), .inl ⟨t, ht, he⟩, fun s => by simp⟩
    · cases h
  binary h := by
    rcases h with ⟨t, ht, h⟩ | ⟨o, h⟩
    · cases h with
      | binary hl hr _ =>
        exact ⟨(), (), .inl ⟨t, ht, hl⟩, sole hr, fun s => by simp⟩
    · cases h
  choose h := by
    rcases h with ⟨t, ht, h⟩ | ⟨o, h⟩
    · cases h with
      | choose hc hx hy _ _ _ =>
        exact ⟨⟨(), trivial, .inl ⟨t, ht, hc⟩⟩, .inl ⟨t, ht, hx⟩, .inl ⟨t, ht, hy⟩⟩
    · cases h
  logic h := by
    rcases h with ⟨t, ht, h⟩ | ⟨o, h⟩
    · cases h with
      | logic h _ =>
        exact ⟨fun _ => trivial, fun e he => ⟨.inl ⟨t, ht, h e he⟩, (), trivial,
          .inl ⟨t, ht, h e he⟩⟩⟩
    · cases h
  duplicate h s hs := by
    rcases h with ⟨t, ht, h⟩ | ⟨o, h⟩
    · cases h with
      | duplicate =>
        have hlast := ht rfl
        cases s with
        | nil =>
          subst hs
          cases hlast
        | cons u s => simp [heights, Instruction.takes, Instruction.gives]
    · cases h
  among h := by
    rcases h with ⟨t, ht, h⟩ | ⟨o, h⟩
    · cases h with
      | among ho htests _ =>
        exact ⟨fun _ => trivial, (), .inl ⟨t, ht, ho⟩, fun e he =>
          ⟨(), trivial, .inl ⟨_, fun _ => rfl, htests e he⟩⟩⟩
    · cases h
  contains h := by
    rcases h with ⟨t, ht, h⟩ | ⟨o, h⟩
    · cases h with
      | contains hc ho _ =>
        exact ⟨(), (), .inl ⟨t, ht, hc⟩, sole ho, fun s => by simp⟩
    · cases h
  owner _ s := by simp
  read h := by
    rcases h with ⟨t, ht, h⟩ | ⟨o, h⟩
    · cases h with
      | read hr _ _ => exact ⟨(), .inl ⟨t, ht, hr⟩, fun s => by simp⟩
      | readOwner _ _ _ => exact ⟨(), .inr ⟨_, rfl⟩, fun s => by simp⟩
    · cases h
  call h := by
    rcases h with ⟨t, ht, h⟩ | ⟨o, h⟩
    · cases h with
      | call _ _ hargs => exact ⟨_, sole_args hargs, fun s => by simp; omega⟩
    · cases h
  invoke h := by
    rcases h with ⟨t, ht, h⟩ | ⟨o, h⟩
    · cases h with
      | invoke hr _ _ hargs =>
        exact ⟨(), _, .inl ⟨t, ht, hr⟩, sole_args hargs, fun s => by simp; omega⟩
      | invokeOwner _ _ _ hargs =>
        exact ⟨(), _, .inr ⟨_, rfl⟩, sole_args hargs, fun s => by simp; omega⟩
    · cases h
  load _ s := by simp
  demand h := by
    rcases h with ⟨t, ht, h⟩ | ⟨o, h⟩
    · cases h with
      | demand hargs => exact ⟨_, sole_args hargs, fun s => by simp; omega⟩
    · cases h
  index h := by
    rcases h with ⟨t, ht, h⟩ | ⟨o, h⟩
    · cases h with
      | index hc hi _ =>
        exact ⟨(), (), .inl ⟨t, ht, hc⟩, sole hi, fun s => by simp⟩
    · cases h

end Sole

/-- The program of an element that was built is balanced. It is the same for every limit that is
large enough, and too long for all others. Its jumps lead forward, at most to its end, so that as
many steps as it has are enough for every run. Each position is reached with one height of the
stack, which is enough for its step, and a run that comes to the end leaves one value. -/
theorem program_balanced {s : Scope} {tree : Grammar.Tree} {root e : Element} {t : Ty}
    (hroot : Build.element s tree = .ok root) (he : s.implicit root t = .ok e) :
    ∃ p : Program Instruction,
      (∀ limit, e.program limit = if p.size ≤ limit then .ok p else .error (.tooLong limit)) ∧
      (∀ i x target, p.steps[i]? = some x → x.target? = some target → i < target ∧
        target ≤ p.size) ∧
      (∀ env fuel, p.size ≤ fuel →
        p.runFrom (Instruction.perform env) fuel 0 [] =
          p.runFrom (Instruction.perform env) p.size 0 []) ∧
      (∃ height : Nat → Nat, ∀ env tally i stack tally',
        p.Reaches (Instruction.perform env) tally i stack tally' →
        i ≤ p.size ∧ stack.length = height i ∧ ∀ x, p.steps[i]? = some x → x.takes ≤ stack.length) ∧
      ∀ env tally stack tally', (p.runFrom (Instruction.perform env) p.size 0 []).run tally =
        (.ok stack, tally') →
        ∃ v, stack = [v] := by
  have htyped := (Build.implicit_typed (Build.element_typed hroot) he).1
  obtain ⟨layout, hchart, hstart, hend⟩ := charted (sole_kinding s) (sole htyped)
  have hreaches : ∀ {env tally i stack tally'},
      (assembled (e.body 0)).Reaches (Instruction.perform env) tally i stack tally' →
        i ≤ (assembled (e.body 0)).size ∧ stack.length = (layout i).length := by
    intro env tally i stack tally' hreach
    obtain ⟨hle, hall⟩ := hchart.reaches (heights_sound env) hstart hreach
    exact ⟨hle, hall.length_eq.symm⟩
  refine ⟨assembled (e.body 0), fun limit => program_eq limit e, fun i x target hx ht =>
    ?_, fun env fuel hfuel => ?_,
    ⟨fun i => (layout i).length, fun env tally i stack tally' hreach => ?_⟩,
    fun env tally stack tally' hrun => ?_⟩
  · obtain ⟨hlt, hle, -⟩ := hchart.jumps i x target hx ht
    exact ⟨hlt, hle⟩
  · have hrun := runFrom_assembled (Instruction.perform env) [] (e.body 0) (e.tidy 0).forward
    rw [assembled_size] at hfuel ⊢
    exact (hrun fuel hfuel []).trans (hrun _ (Nat.le_refl _) []).symm
  · obtain ⟨hle, hlength⟩ := hreaches hreach
    exact ⟨hle, hlength, fun x hx => hlength ▸ takes_le hchart hx⟩
  · obtain ⟨j, hreach, hj⟩ := Program.runFrom_reaches .start hrun
    obtain ⟨hle, hlength⟩ := hreaches hreach
    have hge : (assembled (e.body 0)).size ≤ j := Array.getElem?_eq_none_iff.1 hj
    rw [Nat.le_antisymm hle hge, hend] at hlength
    exact List.length_eq_one_iff.1 hlength

/-- A scope without declarations. -/
def bareScope : Scope where
  host := ⟨[], [], fun _ => [], fun _ => []⟩
  options := {}
  operators := {}
  imports := []
  store := {}
  ownerType := none

def membershipTree : Grammar.Tree :=
  let token (kind : Lexical.Kind) : Grammar.Tree := .leaf ⟨kind, [], {}⟩
  let node (form : Grammar.Form) (children : List Grammar.Tree) : Grammar.Tree :=
    .node form.number "" {} children
  let yes := node .chain [token .yes]
  let no := node .chain [token .no]
  let items := node .argumentList [no, token .separator, yes]
  node .and [node .among [yes, token .among, node .list
    [token .parenOpen, items, token .parenClose]], token .and, no]

def membership : Element :=
  let constant (b : Bool) : Element := .constant .bool (.bool b) none
  let test (b : Bool) : Element := .binary (.sameObject false) .bool (.duplicate .bool) (constant b)
  .logic (.join .and (.operand (.among (constant true) [test false, test true]))
    (.operand (constant false)))

theorem membership_balanced :
    Build.element bareScope membershipTree = .ok membership ∧
      bareScope.implicit membership .bool = .ok membership ∧
      ∃ p : Program Instruction, membership.program 64 = .ok p ∧
        membership.program 8 = .error (.tooLong 8) ∧
        ∃ height : Nat → Nat, ∀ env tally i stack tally',
          p.Reaches (Instruction.perform env) tally i stack tally' →
          stack.length = height i := by
  have hroot : Build.element bareScope membershipTree = .ok membership := rfl
  have he : bareScope.implicit membership .bool = .ok membership := rfl
  obtain ⟨p, hp, -, -, ⟨height, hheight⟩, -⟩ := program_balanced hroot he
  have hok : ∃ q, membership.program 64 = .ok q := ⟨_, rfl⟩
  have hlong : membership.program 8 = .error (.tooLong 8) := rfl
  obtain ⟨q, hq⟩ := hok
  have hsize : membership.program 64 = .ok p := by
    rw [hp] at hq ⊢
    split at hq
    · rename_i h
      rw [if_pos h]
    · cases hq
  exact ⟨hroot, he, p, hsize, hlong, height, fun env tally i stack tally' h =>
    (hheight env tally i stack tally' h).2.1⟩

end Element

end Formulary
