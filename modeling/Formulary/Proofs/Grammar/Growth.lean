import Formulary.Grammar.Parse
import Formulary.Proofs.Grammar.Derivation

/-!
# The trees of derivations

The trees that stand for a derivation: one node for a rule that shows, with the place of its first
token, and only the trees of its children for a hidden one. Trees that a phrase grows have tokens it
derives, and whatever it derives it grows trees for.
-/

namespace Formulary.Grammar

open Lexical (Kind Place Token)

namespace Tree

/-- What a tree adds to its parent: its children if its rule is hidden, or else itself. -/
def added (hidden : Bool) : Tree → List Tree
  | .node rule name place inner => if hidden then inner else [.node rule name place inner]
  | .leaf t => [.leaf t]

mutual

def moved (f : Place → Place) : Tree → Tree
  | .leaf t => .leaf { t with place := f t.place }
  | .node rule name place children => .node rule name (f place) (movedAll f children)

def movedAll (f : Place → Place) : List Tree → List Tree
  | [] => []
  | t :: ts => moved f t :: movedAll f ts

end

theorem place_moved (f : Place → Place) (t : Tree) : (t.moved f).place = f t.place := by
  cases t <;> rfl

mutual

theorem moved_id (t : Tree) : t.moved id = t := by
  cases t with
  | leaf t => rfl
  | node rule name place children => rw [moved, movedAll_id children, id]

theorem movedAll_id (ts : List Tree) : movedAll id ts = ts := by
  cases ts with
  | nil => rfl
  | cons t ts => rw [movedAll, moved_id t, movedAll_id ts]

end

@[simp] theorem leavesOf_append (as bs : List Tree) : leavesOf (as ++ bs) = leavesOf as ++
    leavesOf bs := by
  induction as with
  | nil => rfl
  | cons a as ih => simp [leavesOf, ih]

@[simp] theorem leavesOf_added (hidden : Bool) (tree : Tree) :
    leavesOf (tree.added hidden) = tree.leaves := by
  cases tree with
  | leaf t => simp [added, leavesOf]
  | node rule name place inner => cases hidden <;> simp [added, leavesOf, leaves]

def movedToken (f : Place → Place) (t : Token) : Token := { t with place := f t.place }

mutual

theorem leaves_moved (f : Place → Place) (t : Tree) :
    (t.moved f).leaves = t.leaves.map (movedToken f) := by
  cases t with
  | leaf t => rfl
  | node rule name place children => rw [moved, leaves, leaves, leavesOf_movedAll f children]

theorem leavesOf_movedAll (f : Place → Place) (ts : List Tree) :
    leavesOf (movedAll f ts) = (leavesOf ts).map (movedToken f) := by
  cases ts with
  | nil => rfl
  | cons t ts =>
    rw [movedAll, leavesOf, leavesOf, List.map_append, leaves_moved f t, leavesOf_movedAll f ts]

end

theorem movedAll_append (f : Place → Place) (ts us : List Tree) :
    movedAll f (ts ++ us) = movedAll f ts ++ movedAll f us := by
  induction ts with
  | nil => rfl
  | cons t ts ih => rw [List.cons_append, movedAll, movedAll, ih, List.cons_append]

theorem movedAll_added (f : Place → Place) (hidden : Bool) (t : Tree) :
    movedAll f (t.added hidden) = (t.moved f).added hidden := by
  cases t with
  | leaf t => rfl
  | node rule name place children => cases hidden <;> rfl

end Tree

inductive Grows (g : RuleSet) : Phrase → List Tree → Prop
  | rule {r : Rule} {es : List Element} {place : Place} {ts : List Tree} (hr : r ∈ g.rules)
      (hes : es ∈ r.alternatives)
    (h : Grows g (.elements es) ts) (starts : ∀ t ∈ (Tree.leavesOf ts).head?, t.place = place) :
    Grows g (.rule r.id) ((Tree.node r.id r.name place ts).added r.hidden)
  | nil : Grows g (.elements []) []
  | cons {e : Element} {es : List Element} {n : Nat} {ts us : List Tree} (counts : e.Counts n)
    (h : Grows g (.copies e n) ts) (h' : Grows g (.elements es) us) :
    Grows g (.elements (e :: es)) (ts ++ us)
  | none {e : Element} : Grows g (.copies e 0) []
  | token {e : Element} {t : Token} {n : Nat} {ts : List Tree} (he : e.target = .token t.kind)
    (h : Grows g (.copies e n) ts) : Grows g (.copies e (n + 1)) (.leaf t :: ts)
  | copy {e : Element} {id n : Nat} {ts us : List Tree} (he : e.target = .rule id)
      (h : Grows g (.rule id) ts)
    (h' : Grows g (.copies e n) us) : Grows g (.copies e (n + 1)) (ts ++ us)

section Grown

variable {g : RuleSet} {p : Phrase}

/-- The tokens of grown trees are derived. -/
theorem Grows.derives {ts : List Tree} (h : Grows g p ts) :
    Derives g p ((Tree.leavesOf ts).map (·.kind)) := by
  induction h with
  | rule hr hes _ _ ih => simpa [Tree.leaves] using Derives.rule hr hes ih
  | nil => exact .nil
  | cons counts _ _ ih ih' => simpa using Derives.cons counts ih ih'
  | none => exact .none
  | token he _ ih => simpa [Tree.leavesOf, Tree.leaves] using Derives.token he ih
  | copy he _ _ ih ih' => simpa using Derives.copy he ih ih'

/-- What grows at one place grows at another. -/
theorem Grows.moved {ts : List Tree} (h : Grows g p ts) (f : Place → Place) :
    Grows g p (Tree.movedAll f ts) := by
  induction h with
  | @rule r es place ts hr hes _ starts ih =>
    rw [Tree.movedAll_added, Tree.moved]
    refine .rule hr hes ih fun t ht => ?_
    rw [Tree.leavesOf_movedAll, List.head?_map] at ht
    obtain ⟨u, hu, rfl⟩ := Option.map_eq_some_iff.1 ht
    exact congrArg f (starts u hu)
  | nil => exact .nil
  | cons counts _ _ ih ih' =>
    rw [Tree.movedAll_append]
    exact .cons counts ih ih'
  | none => exact .none
  | @token e t n ts he _ ih => exact .token (t := Tree.movedToken f t) he ih
  | copy he _ _ ih ih' =>
    rw [Tree.movedAll_append]
    exact .copy he ih ih'

/-- Elements that may be missing grow nothing, so a sequence grows what the others do. -/
theorem grows_of_needed {es : List Element} {ts : List Tree}
    (h : Grows g (.elements (es.filter (·.least != 0))) ts) : Grows g (.elements es) ts := by
  induction es generalizing ts with
  | nil => exact h
  | cons e es ih =>
    rw [List.filter_cons] at h
    split at h
    · cases h with
      | cons counts hcopies hrest => exact .cons counts hcopies (ih hrest)
    · rename_i hleast
      have hzero : e.least = 0 := by simpa using hleast
      exact .cons (n := 0) ⟨Nat.le_of_eq hzero, fun m _ => Nat.zero_le m⟩ .none (ih h)

/-- Tokens whose kinds are derived are the leaves of grown trees. -/
theorem Derives.grows {ks : List Kind} (h : Derives g p ks) {us : List Token}
    (hus : us.map (·.kind) = ks) :
    ∃ ts, Grows g p ts ∧ Tree.leavesOf ts = us := by
  induction h generalizing us with
  | rule hr hes _ ih =>
    obtain ⟨ts, hgrows, rfl⟩ := ih hus
    have hstarts : ∀ t ∈ (Tree.leavesOf ts).head?,
        t.place = ((Tree.leavesOf ts).head?.map (·.place)).getD default := by
      intro t ht
      rw [Option.mem_def.1 ht]
      rfl
    exact ⟨_, .rule hr hes hgrows hstarts, by rw [Tree.leavesOf_added, Tree.leaves]⟩
  | nil =>
    obtain rfl := List.map_eq_nil_iff.1 hus
    exact ⟨[], .nil, rfl⟩
  | cons counts _ _ ih ih' =>
    obtain ⟨us, us', rfl, hus, hus'⟩ := List.map_eq_append_iff.1 hus
    obtain ⟨ts, hgrows, rfl⟩ := ih hus
    obtain ⟨ts', hgrows', rfl⟩ := ih' hus'
    exact ⟨ts ++ ts', .cons counts hgrows hgrows', Tree.leavesOf_append ts ts'⟩
  | none =>
    obtain rfl := List.map_eq_nil_iff.1 hus
    exact ⟨[], .none, rfl⟩
  | token he _ ih =>
    obtain ⟨u, us, rfl, rfl, htail⟩ := List.map_eq_cons_iff.1 hus
    obtain ⟨ts, hgrows, rfl⟩ := ih htail
    exact ⟨.leaf u :: ts, .token he hgrows, rfl⟩
  | copy he _ _ ih ih' =>
    obtain ⟨us, us', rfl, hus, hus'⟩ := List.map_eq_append_iff.1 hus
    obtain ⟨ts, hgrows, rfl⟩ := ih hus
    obtain ⟨ts', hgrows', rfl⟩ := ih' hus'
    exact ⟨ts ++ ts', .copy he hgrows hgrows', Tree.leavesOf_append ts ts'⟩

end Grown

end Formulary.Grammar
