import Formulary.Proofs.Build.Agreement
import Formulary.Session.Context

/-!
# First names of trees

The names that the chains of a tree start with are the only ones that are looked up among variables.
Two resolutions that differ in nothing but first names build a tree alike if they agree on these: to
the same, or with failures that differ at most in their words.
-/

namespace Formulary

open Grammar (Form Grows Phrase Tree expressionGrammar)
open Lexical (Token)

def Failure.wordless : Failure → Failure
  | .compile e => .compile { e with detail := "" }
  | f => f

@[simp] theorem Failure.wordless_placed (position : Nat) (f : Failure) :
    (f.placed position).wordless = f.wordless.placed position := by
  cases f <;> rfl

namespace Grammar.Tree

theorem firstNamesOf_append (ts us : List Tree) : firstNamesOf (ts ++ us) = firstNamesOf ts ++
    firstNamesOf us := by
  induction ts with
  | nil => rfl
  | cons t ts ih => rw [List.cons_append, firstNamesOf, firstNamesOf, ih, List.append_assoc]

theorem mem_firstNames_of_child {rule : Nat} {name : String} {place : Lexical.Place}
    {children : List Tree} {x : Text}
    (h : x ∈ firstNamesOf children) : x ∈ firstNames (.node rule name place children) := by
  rw [firstNames]
  exact List.mem_append_right _ h

end Grammar.Tree

namespace Build

/-- Two walks that end alike: with the same, or for the same lapse or refusal, whatever its words
are. -/
def Alike {α : Type} (x y : Except Halt α) : Prop :=
  x.mapError (fun h => ⟨h.failure.wordless, h.lapse?⟩) = y.mapError fun h =>
    (⟨h.failure.wordless, h.lapse?⟩ : Halt)

namespace Alike

variable {α β : Type} {x y : Except Halt α}

theorem refl (x : Except Halt α) : Alike x x := rfl

theorem bind (h : Alike x y) {f g : α → Except Halt β} (hf : ∀ a, x = .ok a → Alike (f a) (g a)) :
    Alike (x >>= f) (y >>= g) := by
  cases x with
  | ok a =>
    cases y with
    | ok b =>
      cases h
      exact hf a rfl
    | error e => cases h
  | error d =>
    cases y with
    | ok b => cases h
    | error e =>
      have hsame : (⟨d.failure.wordless, d.lapse?⟩ : Halt) = ⟨e.failure.wordless, e.lapse?⟩ :=
        Except.error.inj h
      exact congrArg Except.error hsame

theorem haltedAt (h : Alike x y) (position : Nat) :
    Alike (haltedAt position x) (haltedAt position y) := by
  cases x with
  | ok a =>
    cases y with
    | ok b => exact h
    | error e => cases h
  | error d =>
    cases y with
    | ok b => cases h
    | error e =>
      obtain ⟨hfailure, hlapse⟩ := Halt.mk.inj (Except.error.inj h)
      show Except.error (⟨(d.failure.placed position).wordless, d.lapse?⟩ : Halt) =
        .error ⟨(e.failure.placed position).wordless, e.lapse?⟩
      rw [Failure.wordless_placed, Failure.wordless_placed, hfailure, hlapse]

/-- Answers that differ at most in their words. -/
theorem answered {u v : Except Failure α}
    (h : u.mapError Failure.wordless = v.mapError Failure.wordless) :
    Alike (answered u) (answered v) := by
  cases u with
  | ok a =>
    cases v with
    | ok b =>
      cases h
      rfl
    | error g => cases h
  | error f =>
    cases v with
    | ok b => cases h
    | error g => exact congrArg (fun f => Except.error (⟨f, none⟩ : Halt)) (Except.error.inj h)

/-- Walks that end alike have outcomes that differ at most in their words. -/
theorem outcome (h : Alike x y) : (outcome x).mapError Failure.wordless =
    (outcome y).mapError Failure.wordless := by
  cases x with
  | ok a =>
    cases y with
    | ok b => exact congrArg (Except.mapError _) (by cases h; rfl)
    | error e => cases h
  | error d =>
    cases y with
    | ok b => cases h
    | error e => exact congrArg Except.error (Halt.mk.inj (Except.error.inj h)).1

end Alike

section Shows

/-- What a tree is built to shows how it is spelled: a token is a leaf, and a name that is not
called stands alone. -/
structure Shows (t : Tree) (a : Attribute) : Prop where
  token : ∀ u, a = .token u → t = .leaf u
  name : ∀ n, a = .name ⟨n, none⟩ → ∃ name place u,
    t = .node Form.name.number name place [.leaf u] ∧ n = identifier u.image

variable {r : Resolution}

theorem admits_token {f : Form} (hshown : (ruleOf f).hidden = false) {k : Lexical.Kind} :
    ¬Admits f [.token k] := by
  cases f <;> first | exact absurd hshown (by decide) | simp [Admits]

theorem eq_name_of_admits {f : Form} (hshown : (ruleOf f).hidden = false)
    (h : Admits f [.name]) : f = .name := by
  cases f <;> first | exact absurd hshown (by decide) | rfl | simp [Admits] at h

theorem exists_of_combine_name {name : String} {parts : List Part} {n : String}
    (h : r.combine .name name parts = .ok (.name ⟨n, none⟩)) : ∃ place u,
    parts = [⟨place, .token u⟩] ∧ n = identifier u.image := by
  simp only [Resolution.combine] at h
  split at h
  · rename_i place t
    cases h
    exact ⟨place, t, rfl, rfl⟩
  · cases h
  · cases h
  · cases h

/-- Trees that a phrase grows are built to what shows how they are spelled. -/
theorem shows_of_grows {p : Phrase} {ts : List Tree} (h : Grows expressionGrammar p ts)
    {parts : List Part}
    (hparts : r.buildAll ts = .ok parts) : List.Forall₂ (fun t part =>
      Shows t part.built) ts parts := by
  induction h generalizing parts with
  | @rule rule es place ts hr hes hgrows starts ih =>
    have hsteady := steady_of_grows r (Grows.rule hr hes hgrows starts)
    cases hidden : rule.hidden with
    | true =>
      rw [hidden] at hparts
      exact ih hparts
    | false =>
      obtain ⟨f, hf, rfl⟩ := Option.map_eq_some_iff.1 (ruleOf_of_mem rule hr)
      rw [hidden] at hparts hsteady
      obtain ⟨a, ha, hparts⟩ := bind_eq_ok.1 hparts
      cases hparts
      rw [Tree.added, if_neg Bool.false_ne_true, Resolution.buildAll, ha] at hsteady
      obtain ⟨g, hg, hadmits⟩ := hsteady
      rw [hf] at hg
      cases hg
      refine .cons ⟨?_, ?_⟩ .nil
      · rintro u rfl
        exact absurd hadmits (admits_token hidden)
      · rintro n rfl
        obtain rfl := eq_name_of_admits hidden hadmits
        rw [Resolution.build] at ha
        obtain ⟨ps, hps, ha⟩ := bind_eq_ok.1 ha
        simp only [hf] at ha
        obtain ⟨place', u, rfl, hn⟩ := exists_of_combine_name (mapError_eq_ok.1 ha)
        obtain ⟨t, ts, ht, hrest, rfl⟩ := List.forall₂_cons_right_iff.1 (ih hps)
        obtain rfl := List.forall₂_nil_right_iff.1 hrest
        exact ⟨_, _, u, by rw [ht.token u rfl]; rfl, hn⟩
  | nil =>
    cases hparts
    exact .nil
  | cons _ _ _ ih ih' =>
    rw [buildAll_append] at hparts
    obtain ⟨ps, hps, hparts⟩ := bind_eq_ok.1 hparts
    obtain ⟨qs, hqs, hparts⟩ := bind_eq_ok.1 hparts
    cases hparts
    exact List.rel_append (ih hps) (ih' hqs)
  | none =>
    cases hparts
    exact .nil
  | @token e t n ts he _ ih =>
    obtain ⟨a, ha, hparts⟩ := bind_eq_ok.1 hparts
    obtain ⟨ps, hps, hparts⟩ := bind_eq_ok.1 hparts
    cases ha
    cases hparts
    exact .cons ⟨fun u hu => by cases hu; rfl, fun n hn => by cases hn⟩ (ih hps)
  | copy he _ _ ih ih' =>
    rw [buildAll_append] at hparts
    obtain ⟨ps, hps, hparts⟩ := bind_eq_ok.1 hparts
    obtain ⟨qs, hqs, hparts⟩ := bind_eq_ok.1 hparts
    cases hparts
    exact List.rel_append (ih hps) (ih' hqs)

end Shows

/-- A resolution with other first names. -/
def Resolution.naming (r : Resolution) (first : Reference → Except Failure Subject) : Resolution :=
  { r with first := first }

/-- Two ways to look up first names that answer alike: a call always, and a name alone if it is one
of some. -/
structure AnswerAlike (names : List Text) (first first' : Reference → Except Failure Subject) :
    Prop where
  name : ∀ x ∈ names, (first ⟨identifier x, none⟩).mapError Failure.wordless =
    (first' ⟨identifier x, none⟩).mapError Failure.wordless
  call : ∀ n args, (first ⟨n, some args⟩).mapError Failure.wordless =
    (first' ⟨n, some args⟩).mapError Failure.wordless

section Naming

variable {r : Resolution} {first' : Reference → Except Failure Subject}

theorem AnswerAlike.mono {names names' : List Text} {first : Reference → Except Failure Subject}
    (h : AnswerAlike names first first') (hsub : ∀ x ∈ names', x ∈ names) :
    AnswerAlike names' first first' :=
  ⟨fun x hx => h.name x (hsub x hx), h.call⟩

theorem laterLinks_naming (subject : Subject) (parts : List Part) :
    (r.naming first').laterLinks subject parts = r.laterLinks subject parts := by
  induction parts generalizing subject with
  | nil => rfl
  | cons p parts ih =>
    simp only [Resolution.laterLinks, ih]
    rfl

/-- A chain is built alike if its first name, should it start with one, is answered alike. -/
theorem alike_linkChain {rule : Nat} {name : String} {place : Lexical.Place} {ts : List Tree}
    {parts : List Part} (hrule : rule = Form.chain.number ∨ rule = Form.collection.number)
    (h : AnswerAlike (Tree.firstNames (.node rule name place ts)) r.first first')
    (hshows : List.Forall₂ (fun t part => Shows t part.built) ts parts) :
    Alike (r.linkChain parts) ((r.naming first').linkChain parts) := by
  cases hshows with
  | nil => exact .refl _
  | @cons t part ts parts hfirst hrest =>
    have hlink : Alike (r.firstLink part.built) ((r.naming first').firstLink part.built) := by
      cases hbuilt : part.built with
      | name x =>
        obtain ⟨n, args⟩ := x
        cases args with
        | some args => exact .answered (h.call n args)
        | none =>
          obtain ⟨_, _, u, rfl, rfl⟩ := hfirst.name n hbuilt
          refine .answered (h.name u.image ?_)
          rcases hrule with rfl | rfl <;> exact List.mem_cons_self
      | _ => exact .refl _
    refine (hlink.haltedAt _).bind fun subject _ => ?_
    rw [laterLinks_naming]
    exact .refl _

/-- A node of another form takes no part in the looking up of first names. -/
theorem combine_naming {f : Form} (hf : f ≠ .chain) (hf' : f ≠ .collection) (name : String)
    (parts : List Part) :
    (r.naming first').combine f name parts = r.combine f name parts := by
  cases f <;> first | exact absurd rfl hf | exact absurd rfl hf' | rfl

/-- Trees that a phrase grows are built alike if the names that their chains start with are answered
alike. -/
theorem alike_of_grows {p : Phrase} {ts : List Tree} (h : Grows expressionGrammar p ts)
    (hnames : AnswerAlike (Tree.firstNamesOf ts) r.first first') :
    Alike (r.buildAll ts) ((r.naming first').buildAll ts) := by
  induction h with
  | @rule rule es place ts hr hes hgrows starts ih =>
    cases hidden : rule.hidden with
    | true =>
      rw [hidden] at hnames
      exact ih hnames
    | false =>
      obtain ⟨f, hf, rfl⟩ := Option.map_eq_some_iff.1 (ruleOf_of_mem rule hr)
      rw [hidden, Tree.added, if_neg Bool.false_ne_true, Tree.firstNamesOf, Tree.firstNamesOf,
        List.append_nil] at hnames
      have hnode : Alike (r.build (.node (ruleOf f).id (ruleOf f).name place ts))
          ((r.naming first').build (.node (ruleOf f).id (ruleOf f).name place ts)) := by
        rw [Resolution.build, Resolution.build]
        simp only [hf]
        have hchildren := ih (hnames.mono fun x hx => Tree.mem_firstNames_of_child hx)
        refine hchildren.bind fun parts hparts => Alike.haltedAt ?_ _
        have hlink := fun hrule => alike_linkChain hrule hnames (shows_of_grows hgrows hparts)
        by_cases hchain : f = .chain
        · subst hchain
          exact hlink (.inl rfl)
        · by_cases hcollection : f = .collection
          · subst hcollection
            exact hlink (.inr rfl)
          · rw [combine_naming hchain hcollection]
            exact .refl _
      exact hnode.bind fun a _ => .refl _
  | nil => exact .refl _
  | cons _ _ _ ih ih' =>
    rw [Tree.firstNamesOf_append] at hnames
    rw [buildAll_append, buildAll_append]
    refine (ih (hnames.mono fun x hx => List.mem_append_left _ hx)).bind fun ps _ => ?_
    exact (ih' (hnames.mono fun x hx => List.mem_append_right _ hx)).bind fun qs _ => .refl _
  | none => exact .refl _
  | token _ _ ih =>
    refine (Alike.refl _).bind fun a _ => ?_
    exact (ih (hnames.mono fun x hx => List.mem_append_right _ hx)).bind fun ps _ => .refl _
  | copy _ _ _ ih ih' =>
    rw [Tree.firstNamesOf_append] at hnames
    rw [buildAll_append, buildAll_append]
    refine (ih (hnames.mono fun x hx => List.mem_append_left _ hx)).bind fun ps _ => ?_
    exact (ih' (hnames.mono fun x hx => List.mem_append_right _ hx)).bind fun qs _ => .refl _

/-- A tree is built alike if it is as an only child. -/
theorem alike_of_single {r' : Resolution} {t : Tree}
    (h : Alike (r.buildAll [t]) (r'.buildAll [t])) :
    Alike (r.build t) (r'.build t) := by
  simp only [Resolution.buildAll] at h
  cases ha : r.build t with
  | ok a =>
    rw [ha] at h
    cases hb : r'.build t with
    | ok b =>
      rw [hb] at h
      cases h
      exact .refl _
    | error e =>
      rw [hb] at h
      cases h
  | error d =>
    rw [ha] at h
    cases hb : r'.build t with
    | ok b =>
      rw [hb] at h
      cases h
    | error e =>
      rw [hb] at h
      exact congrArg Except.error (Except.error.inj h)

/-- The tree of a text has alike elements if the names that its chains start with are answered
alike. -/
theorem alike_element {l : Lexical.Lexer} {text : Text} {t : Tree}
    (ht : Grammar.parse l text = .ok t) (hnames : AnswerAlike t.firstNames r.first first') :
    Alike (r.element t) ((r.naming first').element t) := by
  have hbuild : Alike (r.build t) ((r.naming first').build t) := by
    refine alike_of_single (alike_of_grows (Grammar.parse_grows ht) (hnames.mono fun x hx => ?_))
    rwa [Tree.firstNamesOf, Tree.firstNamesOf, List.append_nil] at hx
  refine hbuild.bind fun a _ => ?_
  cases a <;> exact .refl _

end Naming

section Stores

variable {s : Scope} {store : Store}

theorem firstName_storing {name : String} (h : (store.typeOf? name).or (store.suppliedType? name) =
    (s.store.typeOf? name).or (s.store.suppliedType? name)) :
      (firstName s name).mapError Failure.wordless =
      (firstName { s with store := store } name).mapError Failure.wordless := by
  unfold firstName
  simp only [h, Scope.imported, ownerElement, Scope.ownerMembers]
  split
  · rfl
  · split
    · rfl
    · rfl
    · rfl
    · rfl
    · rfl

theorem firstCall_storing (hhooks : store.hooks = s.store.hooks) (name : String)
    (args : List Element) :
    (firstCall s name args).mapError Failure.wordless =
      (firstCall { s with store := store } name args).mapError Failure.wordless := by
  have hsupplied : store.suppliedFunction? name (args.map Element.type) =
      s.store.suppliedFunction? name (args.map Element.type) := by
    rw [Store.suppliedFunction?, Store.suppliedFunction?, hhooks]
  have hcall : ∀ cands,
      callBest { s with store := store } (ownerElement { s with store := store }) name args cands =
      callBest s (ownerElement s) name args cands := fun _ => rfl
  simp only [firstCall, hsupplied, hcall, Scope.imported, Scope.ownerMembers]
  by_cases hnone : (candidates (s.ownerMembers name [.method]) s.options.ownerAccess false ++
      candidates (functionsOf (s.imported name)) .all false).isEmpty = true
  · simp only [Scope.imported, Scope.ownerMembers] at hnone
    simp only [hnone, if_true]
    cases s.store.suppliedFunction? name (args.map Element.type) <;> rfl
  · simp only [Scope.imported, Scope.ownerMembers] at hnone
    simp only [hnone, Bool.false_eq_true, if_false]

/-- Two stores answer first names alike if these have variables of the same types in them, or
none. -/
theorem answerAlike_storing {names : List Text} (hhooks : store.hooks = s.store.hooks)
    (h : ∀ x ∈ names, store.typeOf? (identifier x) = s.store.typeOf? (identifier x)) :
    AnswerAlike names (first s) (first { s with store := store }) where
  name x hx := by
    refine firstName_storing ?_
    rw [h x hx, Store.suppliedType?, Store.suppliedType?, hhooks]
  call n args := by
    have hmap : ∀ x : Except Failure Element, (x.map Subject.value).mapError Failure.wordless =
        (x.mapError Failure.wordless).map Subject.value := fun x => by cases x <;> rfl
    rw [first, first, hmap, hmap, firstCall_storing hhooks]

/-- The tree of a text has the same element for any two such stores, or fails in the same way. -/
theorem element_storing {l : Lexical.Lexer} {text : Text} {t : Tree}
    (ht : Grammar.parse l text = .ok t) (hhooks : store.hooks = s.store.hooks)
    (h : ∀ x ∈ t.firstNames, store.typeOf? (identifier x) = s.store.typeOf? (identifier x)) :
    (element s t).mapError Failure.wordless =
      (element { s with store := store } t).mapError Failure.wordless := by
  have hnaming : resolutionOf { s with store := store } =
      (resolutionOf s).naming (first { s with store := store }) := rfl
  rw [← Resolution.outcome_element, ← Resolution.outcome_element, hnaming]
  exact (alike_element ht (answerAlike_storing hhooks h)).outcome

end Stores

end Build

theorem toOption_mapError {ε δ α : Type} {x : Except ε α} (f : ε → δ) :
    (x.mapError f).toOption = x.toOption := by
  cases x <;> rfl

/-- What goes on alike from outcomes that differ at most in their words. -/
theorem mapError_wordless_bind {α β : Type} {x y : Except Failure α}
    (h : x.mapError Failure.wordless = y.mapError Failure.wordless) (f : α → Except Failure β) :
    (x >>= f).mapError Failure.wordless = (y >>= f).mapError Failure.wordless := by
  cases x with
  | ok a =>
    cases y with
    | ok b =>
      cases h
      rfl
    | error g => cases h
  | error d =>
    cases y with
    | ok b => cases h
    | error g => exact congrArg Except.error (Except.error.inj h)

namespace Context

variable {c : Context} {host : Host} {store store' : Store} {o : Options} {text : Text}

/-- The names that the chains of a text start with. -/
def firstNames (c : Context) (text : Text) : List String :=
  match c.parse text with
  | .ok tree => tree.firstNames.map Build.identifier
  | .error _ => []

/-- A text has the same element for two stores if the names that its chains start with have
variables of the same types in them, or none; or it fails in the same way. -/
theorem element_storing (hhooks : store'.hooks = store.hooks)
    (h : ∀ name ∈ c.firstNames text, store'.typeOf? name = store.typeOf? name) :
    (c.element host store o text).mapError Failure.wordless =
      (c.element host store' o text).mapError Failure.wordless := by
  unfold element
  unfold firstNames at h
  cases htree : c.parse text with
  | error f => simp only [bind, Except.bind]
  | ok tree =>
    rw [htree] at h
    have hroot := Build.element_storing (s := c.scope host store o) (mapError_eq_ok.1 htree) hhooks
      fun x hx => h _ (List.mem_map_of_mem hx)
    exact mapError_wordless_bind hroot _

/-- So it is compiled to the same, or fails in the same way. -/
theorem compile_storing (hhooks : store'.hooks = store.hooks)
    (h : ∀ name ∈ c.firstNames text, store'.typeOf? name = store.typeOf? name) :
    (c.compile host store o text).mapError Failure.wordless =
      (c.compile host store' o text).mapError Failure.wordless :=
  mapError_wordless_bind (element_storing hhooks h) _

theorem compile_toOption_storing (hhooks : store'.hooks = store.hooks)
    (h : ∀ name ∈ c.firstNames text, store'.typeOf? name = store.typeOf? name) :
    (c.compile host store o text).toOption = (c.compile host store' o text).toOption := by
  rw [← toOption_mapError Failure.wordless, compile_storing hhooks h, toOption_mapError]

end Context

end Formulary
