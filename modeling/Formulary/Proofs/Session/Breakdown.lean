import Formulary.Proofs.Build.Halting
import Formulary.Proofs.Element.Compilation
import Formulary.Proofs.Host.Honest
import Formulary.Proofs.Session.Supply
import Formulary.Session.Context

/-!
# How compiling fails

A call is resolved to a match or to a compile error, and compiling gives a program or a compile
error. What breaks both is an extension whose only parameter is variadic: the value it is called on
takes the place of that parameter, and then there is none left for the arguments. A compile error of
a text that parses and is not built says what is wrong with its meaning, and points to the start of
one of its tokens.
-/

namespace Formulary.Context

open Overload (Candidate Fault Scale resolve)

variable {host : Host} {c : Context}

/-- In a scope that can be declared, compiling gives a program or a compile error. -/
theorem orderly_compile {store : Store} {o : Options}
    (regular : (c.scope host store o).Regular) (text : Text) :
    Orderly (c.compile host store o text) fun _ => True := by
  have helement : Orderly (c.element host store o text) fun _ => True := by
    unfold element parse
    cases hparse : Grammar.parse c.lexer text with
    | error fault => exact ⟨_, rfl⟩
    | ok tree =>
      refine (Build.orderly_element regular hparse).bind fun root _ => ?_
      dsimp only
      split
      · trivial
      · exact .mismatch _
  refine helement.bind fun root _ => ?_
  rw [Element.program_eq]
  split
  · trivial
  · rename_i h
    split at h
    · cases h
    · obtain rfl := Except.error.inj h
      exact ⟨_, rfl⟩

/-- A text that parses and is not built is refused with a compile error of meaning, whose position
is the start of one of its tokens. Only where something in scope cannot be declared, or a function
of the root takes a variadic parameter alone, there may be a breakdown instead. -/
theorem compile_points {store : Store} {o : Options} {text : Text} {tree : Grammar.Tree}
    (hparse : c.parse text = .ok tree)
    {f : Failure} (hbuild : Build.element (c.scope host store o) tree = .error f) :
    c.compile host store o text = .error f ∧
      ((∃ e, f = .compile e ∧ e.reason.isOfMeaning = true ∧
          ∃ t ∈ (c.lexer.tokenize text).1, e.position = some t.place.offset) ∨
        (∃ words, f = .broken words) ∧ ¬(c.scope host store o).Regular) := by
  constructor
  · rw [compile, element, hparse]
    simp only [bind, Except.bind, hbuild]
  · obtain ⟨e, he, hreason, n, hn, hposition⟩ | hbroken :=
      Build.settled_element not_not.1 (parse_eq_ok.1 hparse) hbuild
    · obtain ⟨t, ht, rfl⟩ := List.mem_map.1 hn
      exact .inl ⟨e, he, hreason, t, ht, hposition⟩
    · exact .inr hbroken

theorem methodSet_bare (t : Ty) : ∀ m ∈ Host.bare.methodSet t, m.2.Regular := by
  have hnone : Host.bare.methodSet t = [] := by
    unfold Host.methodSet
    repeat' split
    all_goals rfl
  rw [hnone]
  exact nofun

theorem regular_usual : (usual.scope .bare {} {}).Regular where
  methods := methodSet_bare
  functions m h := by
    have hnone : ∀ x, ¬Imported [] x := by
      intro x hx
      induction hx with
      | here h => cases h
      | within _ _ ih => exact ih
    exact absurd h (hnone m)
  whole := nofun

/-- A text is no factor, and the error points to the start of a token. -/
theorem compile_points_product : ∃ e, usual.compile .bare {} {} (Text.ofString "1 + \"x\" * 2") =
    .error (.compile e) ∧
    ∃ t ∈ (usual.lexer.tokenize (Text.ofString "1 + \"x\" * 2")).1,
      e.position = some t.place.offset := by
  have hfails : ((usual.parse (Text.ofString "1 + \"x\" * 2")).toOption.any fun tree =>
      !(Build.element (usual.scope .bare {} {}) tree).isOk) = true := by
    rw [parse, Grammar.parse_standing]
    decide +kernel
  obtain ⟨tree, htree, hfails⟩ := exists_ok_of_any hfails
  cases hbuild : Build.element (usual.scope .bare {} {}) tree with
  | ok e =>
    rw [hbuild] at hfails
    cases hfails
  | error f =>
    obtain ⟨hcompile, ⟨e, rfl, -, hposition⟩ | ⟨-, hirregular⟩⟩ := compile_points htree hbuild
    · exact ⟨e, hcompile, hposition⟩
    · exact absurd regular_usual hirregular

/-- Where what members and functions are declared is as it can be, a call is refused with anything
but a compile error exactly for arguments to an extension whose only parameter is variadic, and
compiling fails with anything but a compile error only where such a function is imported. -/
theorem compile_breaks (hmethods : ∀ t, ∀ m ∈ host.methodSet t, m.2.Regular)
    (hfunctions : ∀ m, Imported c.imports m → m.Regular) :
    (∀ (α σ : Type) (scale : Scale σ) (score : Ty → Ty → Int) (cs : List (Candidate α))
      (args : List Ty),
      (∀ d ∈ cs, d.Regular) →
        ((∃ fault, resolve scale score cs args = .error fault ∧ ∀ name e,
          fault.failure name args ≠ .compile e) ↔
          args ≠ [] ∧ ∃ d ∈ cs, d.Hollow)) ∧
      ∀ store o text f, c.compile host store o text = .error f → (∀ e, f ≠ .compile e) →
        ∃ n g, .function n g ∈ c.imports ∧ g.Hollow := by
  refine ⟨fun α σ scale score cs args hregular => ?_, fun store o text f hf hnot => ?_⟩
  · constructor
    · rintro ⟨fault, hfault, hnot⟩
      have hbroken : fault = .broken := by
        by_contra hne
        obtain ⟨e, he⟩ := Build.orderly_fault hne "" args
        exact hnot "" e he
      subst hbroken
      obtain ⟨d, hd, hhollow, hargs⟩ := (Overload.resolve_eq_broken hregular).1 hfault
      exact ⟨hargs, d, hd, hhollow⟩
    · rintro ⟨hargs, d, hd, hhollow⟩
      exact ⟨.broken, (Overload.resolve_eq_broken hregular).2 ⟨d, hd, hhollow, hargs⟩,
        fun _ _ => nofun⟩
  · by_contra hwhole
    have regular : (c.scope host store o).Regular :=
      ⟨hmethods, hfunctions, fun n g hg hhollow => hwhole ⟨n, g, hg, hhollow⟩⟩
    have horderly := orderly_compile regular text
    rw [hf] at horderly
    obtain ⟨e, he⟩ := horderly
    exact hnot e he

section Variadic

/-- A function of the root with one result, whose last parameter is variadic. -/
def lengthen (params : List Ty) : Function :=
  ⟨⟨params, true, [.int .int]⟩, fun _ => pure (.int .int 7)⟩

def lengthening (params : List Ty) : Context where
  options := {}
  imports := [.function "V" (lengthen params)]
  lexer := .ofOptions {}

def listed : Store :=
  { entries :=
    [(nameKey false "list", ⟨"list", .slice (.int .int), .value (.slice (.int .int) .empty [])⟩)] }

theorem imported_lengthening {params : List Ty} {m : Member}
    (h : Imported (lengthening params).imports m) :
    m = .function "V" (lengthen params) := by
  induction h with
  | here h => exact List.mem_singleton.1 h
  | within _ _ ih => cases ih

/-- A list for a boolean is refused with a compile error. -/
theorem compile_lengthening_refused : ∃ f, (lengthening
    [.slice (.int .int), .slice (.int .int)]).compile .bare listed {}
    (Text.ofString "list.V(true)") = .error f ∧ ∃ e, f = .compile e := by
  have hfails : ((lengthening [.slice (.int .int), .slice (.int .int)]).compile .bare listed {}
      (Text.ofString "list.V(true)")).isOk = false := by
    rw [Context.compile, Context.element, Context.parse, Grammar.parse_standing]
    decide +kernel
  cases hcompile : (lengthening [.slice (.int .int), .slice (.int .int)]).compile .bare listed {}
      (Text.ofString "list.V(true)") with
  | ok compiled =>
    rw [hcompile] at hfails
    cases hfails
  | error f =>
    refine ⟨f, rfl, ?_⟩
    by_contra hnot
    have hfunctions : ∀ m, Imported (lengthening [.slice (.int .int), .slice (.int .int)]).imports
        m → m.Regular := by
      intro m hm
      rw [imported_lengthening hm]
      rintro signature ⟨⟩ _
      exact ⟨.int .int, rfl⟩
    obtain ⟨n, g, hg, hhollow⟩ :=
      (compile_breaks methodSet_bare hfunctions).2 listed {} _ f hcompile fun e he => hnot ⟨e, he⟩
    cases List.mem_singleton.1 hg
    cases hhollow.2

/-- Whether an outcome is a breakdown. -/
def isBroken {α : Type} : Except Failure α → Bool
  | .error (.broken _) => true
  | _ => false

theorem exists_of_isBroken {α : Type} {x : Except Failure α} (h : isBroken x = true) : ∃ words,
    x = .error (.broken words) := by
  unfold isBroken at h
  split at h
  · exact ⟨_, rfl⟩
  · cases h

/-- An extension that takes a value and nothing else breaks down when it is given an argument. -/
theorem compile_lengthening_breaks : ∃ words,
    (lengthening [.slice (.int .int)]).compile .bare listed {}
    (Text.ofString "list.V(1)") = .error (.broken words) := by
  apply exists_of_isBroken
  rw [Context.compile, Context.element, Context.parse, Grammar.parse_standing]
  decide +kernel

/-- The text parses, and there is no error at all that could point into it. -/
theorem compile_points_nowhere : ∃ tree words,
    (lengthening [.slice (.int .int)]).parse (Text.ofString "list.V(2)") = .ok tree ∧
      Build.element ((lengthening [.slice (.int .int)]).scope .bare listed {}) tree =
        .error (.broken words) := by
  have hbreaks : isBroken ((lengthening [.slice (.int .int)]).parse (Text.ofString "list.V(2)") >>=
      Build.element ((lengthening [.slice (.int .int)]).scope .bare listed {})) = true := by
    rw [parse, Grammar.parse_standing]
    decide +kernel
  obtain ⟨words, hwords⟩ := exists_of_isBroken hbreaks
  cases hparse : (lengthening [.slice (.int .int)]).parse (Text.ofString "list.V(2)") with
  | ok tree =>
    rw [hparse] at hwords
    exact ⟨tree, words, rfl, hwords⟩
  | error f =>
    rw [hparse] at hwords
    obtain rfl : f = .broken words := Except.error.inj hwords
    rw [parse] at hparse
    cases hfault : Grammar.parse (lengthening [.slice (.int .int)]).lexer
      (Text.ofString "list.V(2)") with
    | ok tree =>
      rw [hfault] at hparse
      cases hparse
    | error fault =>
      rw [hfault] at hparse
      cases hparse

end Variadic

end Formulary.Context
