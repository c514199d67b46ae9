import Formulary.Proofs.Build.Calculation
import Formulary.Proofs.Build.Unchecked
import Formulary.Proofs.Session.TypeSafety
import Formulary.Session.Context

/-!
# Checked calculations are exact

Checks only turn values into failures: a text compiles with tests for overflow exactly if it
compiles without them, to the same type, and wherever the tests let a value through, the text has
this value without them, too.

A text that is a calculation with integers, compiled with tests for overflow, has its exact value
whenever it has a value at all. Only a declared type of the result can change it afterwards, by a
conversion that is not tested.
-/

namespace Formulary.Context

open Machine

variable (c : Context) (host : Host) (store : Store) (o : Options) (text : Text)

/-- A text has the same element with and without checks, up to the tests. -/
theorem element_unchecked :
    (c.element host store { o with checked := false } text).toOption =
      (c.element host store { o with checked := true } text).toOption.map Element.unchecked := by
  have hparse : (c.parse text).toOption = (c.parse text).toOption.map id := by simp
  refine toOption_bind_like hparse fun tree => ?_
  refine toOption_bind_like
    (Build.element_unchecked (c.scope host store { o with checked := true }) tree) fun root => ?_
  simp only [Element.type_unchecked]
  generalize o.resultType.getD _ = result
  have himplicit :=
    Build.implicit_unchecked (c.scope host store { o with checked := true }) root result
  have hscope : (c.scope host store { o with checked := true }).unchecked =
      c.scope host store { o with checked := false } := rfl
  rw [hscope] at himplicit
  rw [himplicit]
  cases (c.scope host store { o with checked := true }).implicit root result <;> rfl

variable {c host store o text}

/-- What compiling needs: an element, and room for its program. -/
theorem compile_eq_ok {x : Compiled} (h : c.compile host store o text = .ok x) :
    ∃ root, c.element host store o text = .ok root ∧
      root.program (limitOf o.maxInstructions) = .ok x.program ∧
      x.type = root.type := by
  obtain ⟨root, hroot, h⟩ := bind_eq_ok.1 h
  split at h
  · rename_i program hprogram
    cases h
    exact ⟨root, hroot, hprogram, rfl⟩
  · cases h

theorem isOk_compile {root : Element} (h : c.element host store o text = .ok root) :
    (c.compile host store o text).isOk = (root.program (limitOf o.maxInstructions)).isOk := by
  rw [compile, h]
  simp only [bind, Except.bind]
  cases root.program (limitOf o.maxInstructions) <;> rfl

variable (c host store o text)

/-- A text compiles with checks if and only if it compiles without them, and to the same type. In
every environment, whatever its host, owner, variables and hooks are: if the text with checks has a
value then without them it has the same value, and leaves the same tally; if it fails without checks
then it fails with them. -/
theorem compile_checked_refines :
    ((∃ x, c.compile host store { o with checked := true } text = .ok x) ↔
      ∃ y, c.compile host store { o with checked := false } text = .ok y) ∧
    ∀ x y, c.compile host store { o with checked := true } text = .ok x →
      c.compile host store { o with checked := false } text = .ok y → x.type = y.type ∧
        ∀ env tally,
          (∀ v tally', (runProgram env x.program).run tally = (.ok v, tally') →
            (runProgram env y.program).run tally = (.ok v, tally')) ∧
          ∀ f tally', (runProgram env y.program).run tally = (.error f, tally') →
            ∃ g tally'', (runProgram env x.program).run tally = (.error g, tally'') := by
  have hlike := element_unchecked c host store o text
  refine ⟨?_, fun x y hx hy => ?_⟩
  · have hok : (c.compile host store { o with checked := true } text).isOk =
        (c.compile host store { o with checked := false } text).isOk := by
      cases hroot : c.element host store { o with checked := true } text with
      | error f =>
        rw [hroot] at hlike
        cases hroot' : c.element host store { o with checked := false } text with
        | error g => rw [compile, hroot, compile, hroot']; rfl
        | ok root' =>
          rw [hroot'] at hlike
          cases hlike
      | ok root =>
        rw [hroot] at hlike
        cases hroot' : c.element host store { o with checked := false } text with
        | error g =>
          rw [hroot'] at hlike
          cases hlike
        | ok root' =>
          rw [hroot'] at hlike
          cases hlike
          rw [isOk_compile hroot, isOk_compile hroot', Element.isOk_program_unchecked]
    rw [exists_ok_iff_isOk, exists_ok_iff_isOk, hok]
  · obtain ⟨root, hroot, hprogram, htype⟩ := compile_eq_ok hx
    obtain ⟨root', hroot', hprogram', htype'⟩ := compile_eq_ok hy
    obtain rfl : root' = root.unchecked := by
      rw [hroot, hroot'] at hlike
      exact Option.some_inj.1 hlike
    refine ⟨by rw [htype, htype', Element.type_unchecked], fun env tally => ?_⟩
    rw [Element.program_eq_ok hprogram, Element.program_eq_ok hprogram',
      Element.runProgram_assembled, Element.runProgram_assembled]
    have hrefines := Element.unchecked_refines env root none
    exact ⟨hrefines tally, fun f tally' => hrefines.error⟩

end Formulary.Context

namespace Formulary

/-- A plain integer is loaded as it is. -/
theorem Store.load_number {s : Store} {host : Host} {evaluate : Nat → Eval Value} {name : String}
    {k : IntKind} {n : Int} (h : s.number? name = some (k, n)) :
    k.holds n = true ∧ s.load host evaluate name (.int k) = pure (.int k n) := by
  unfold number? at h
  split at h
  · rename_i j i hfind
    split at h
    · rename_i htest
      rw [Bool.and_eq_true, beq_iff_eq] at htest
      obtain ⟨rfl, hheld⟩ := htest
      cases h
      refine ⟨hheld, ?_⟩
      rw [load, hfind]
      simp [coerce, Value.type?, Host.suits]
    · cases h
  · rename_i hfind
    cases h
    refine ⟨IntKind.holds_zero k, ?_⟩
    rw [load, hfind]
    rfl
  · cases h

/-- A name is a variable where nothing else can have it. -/
theorem Build.firstName_bare {s : Scope} {name : String} {t : Ty} (howner : s.ownerType = none)
    (himports : s.imports = [])
    (h : s.store.typeOf? name = some t) : firstName s name = .ok (.value (.variable name t)) := by
  simp [firstName, ownerElement, howner, Scope.imported, himports, Imports.lookup, h]

namespace Context

variable {c : Context} {host : Host} {store : Store} {o : Options} {text : Text}

/-- What the element of a text is made of. -/
theorem element_eq_ok {e : Element} (h : c.element host store o text = .ok e) :
    ∃ tree root, c.parse text = .ok tree ∧ Build.element (c.scope host store o) tree = .ok root ∧
      (c.scope host store o).implicit root (o.resultType.getD
        (if root.type == .null then .object else root.type)) = .ok e := by
  obtain ⟨tree, htree, h⟩ := bind_eq_ok.1 h
  obtain ⟨root, hroot, h⟩ := bind_eq_ok.1 h
  refine ⟨tree, root, htree, hroot, ?_⟩
  simp only at h
  generalize o.resultType.getD _ = result at h ⊢
  split at h
  · rename_i e' he
    cases h
    exact he
  · cases h

end Context

namespace Workspace

theorem evaluate_eq {w : Workspace} {n : Nat} {e : Expression} (h : w.expressions[n]? = some e) :
    w.evaluate n =
      (((runProgram (w.environment w.expressions.size e) e.compiled.program).run w.tally).1,
        { w with
          tally := ((runProgram (w.environment w.expressions.size e) e.compiled.program).run
            w.tally).2 }) := by
  rw [evaluate, valueOf_succ h]
  rfl

section

variable {c : Context} {host : Host} {store : Store} {o : Options} {text : Text} {x : Compiled}
  {tree : Grammar.Tree}
  {f : Calculation} {w : Workspace} {n : Nat} {e : Expression}

/-- A checked calculation is evaluated to its exact value as the type of the result has it, or fails
as it can. -/
theorem evaluate_calculation (hchecked : o.checked = true) (hintegers : o.integersAsDoubles = false)
    (hoperators : c.operators = {}) (hcompile : c.compile host store o text = .ok x)
    (htree : c.parse text = .ok tree)
    (hcalculation : tree.calculation? = some f) (he : w.expressions[n]? = some e)
    (hx : e.compiled = x) (hplain : f.Plain (c.scope host store o) w.store) :
    ∃ k, f.kind? w.store.number? = some k ∧
      ((∃ m, f.exact w.store.number? = some m ∧ k.holds m = true ∧
        w.evaluate n = (.ok ((Value.int k m).returnedAs (o.resultType.getD (.int k))), w)) ∨
      ∃ g, f.Fails w.store.number? g ∧ w.evaluate n = (.error g, w)) := by
  obtain ⟨root, hroot, hprogram, -⟩ := Context.compile_eq_ok hcompile
  obtain ⟨tree', inner, htree', hinner, hresult⟩ := Context.element_eq_ok hroot
  obtain rfl : tree' = tree := by
    rw [htree] at htree'
    exact (Except.ok.inj htree').symm
  have hops : (c.scope host store o).operators.implicit = [] := by rw [Context.scope, hoperators]
  have helement := Build.element_calculation hcalculation hinner
  have hsettles : f.Settles w.store.number? (w.environment w.expressions.size e) inner :=
    Calculation.settles_element hops hchecked hintegers (fun name k m h =>
      Store.load_number h) hplain helement
  obtain ⟨k, hk, htype, hsettles⟩ := hsettles
  rw [htype] at hresult
  rw [evaluate_eq he, hx, Element.program_eq_ok hprogram, Element.runProgram_assembled]
  refine ⟨k, hk, ?_⟩
  rcases hsettles with ⟨m, hm, hheld, hvalue⟩ | ⟨g, hg, hfails⟩
  · refine .inl ⟨m, hm, hheld, ?_⟩
    rw [Build.eval_implicit_of_pure hops hresult htype (hvalue none) hheld]
    rfl
  · refine .inr ⟨g, hg, ?_⟩
    rw [Build.eval_implicit_of_failed hresult (hfails none)]
    rfl

/-- A checked calculation has its exact value, converted to the type of the result if one is
declared. It fails only because a divisor is zero, or because the exact value of a part is not held
by the type of this part. -/
theorem evaluate_exact (hchecked : o.checked = true) (hintegers : o.integersAsDoubles = false)
    (hoperators : c.operators = {}) (hcompile : c.compile host store o text = .ok x)
    (htree : c.parse text = .ok tree)
    (hcalculation : tree.calculation? = some f) (he : w.expressions[n]? = some e)
    (hx : e.compiled = x) (hplain : f.Plain (c.scope host store o) w.store) :
    (∀ v w', w.evaluate n = (.ok v, w') → ∃ k m, f.kind? w.store.number? = some k ∧
      f.exact w.store.number? = some m ∧
      k.holds m = true ∧ (o.resultType = none → v = .int k m) ∧
      ∀ t, o.resultType = some t → v = (Value.int k m).returnedAs t ∧ ∀ j, t = .int j →
        j.holds m = true → v = .int j m) ∧
    ∀ g w', w.evaluate n = (.error g, w') → f.Fails w.store.number? g := by
  obtain ⟨k, hk, ⟨m, hm, hheld, hvalue⟩ | ⟨g, hg, hfails⟩⟩ :=
    evaluate_calculation hchecked hintegers hoperators hcompile htree hcalculation he hx hplain
  · rw [hvalue]
    refine ⟨fun v w' h => ?_, fun g w' h => nomatch h⟩
    cases h
    refine ⟨k, m, hk, hm, hheld, fun hnone => ?_, fun t ht => ?_⟩
    · rw [hnone]
      exact Value.returnedAs_int k hheld
    · rw [ht]
      exact ⟨rfl, fun j hj hheld' => hj ▸ Value.returnedAs_int k hheld'⟩
  · rw [hfails]
    refine ⟨fun v w' h => (nomatch h), fun g' w' h => ?_⟩
    cases h
    exact hg

end

/-- A text that compiles and is a calculation. -/
def Calculates (c : Context) (store : Store) (text : Text) (f : Calculation) : Prop :=
  ∃ x tree, c.compile .bare store c.options text = .ok x ∧ c.parse text = .ok tree ∧
    tree.calculation? = some f

theorem calculates_of_test {c : Context} {store : Store} {text : Text} {f : Calculation}
    (h : ((c.compile .bare store c.options text).isOk &&
      (c.parse text).toOption.bind Grammar.Tree.calculation? == some f) = true) :
        Calculates c store text f := by
  rw [Bool.and_eq_true, beq_iff_eq] at h
  obtain ⟨x, hx⟩ := exists_ok_iff_isOk.2 h.1
  obtain ⟨tree, htree, hcalculation⟩ := Option.bind_eq_some_iff.1 h.2
  cases hparse : c.parse text with
  | error g =>
    rw [hparse] at htree
    cases htree
  | ok _ =>
    rw [hparse] at htree
    cases htree
    exact ⟨x, tree, hx, hparse, hcalculation⟩

/-- A context with tests for overflow, and perhaps a type of the result. -/
def strict (result : Option Ty) : Context where
  options := { caseSensitive := true, checked := true, resultType := result }
  lexer := .ofOptions {}

/-- A store with a short integer and one of the machine. -/
def ledger : Store where
  caseSensitive := true
  entries := [(nameKey true "a", ⟨"a", .int .short, .value (.int .short (-7))⟩),
    (nameKey true "b", ⟨"b", .int .machine, .value (.int .machine 2)⟩)]

def single (store : Store) (x : Compiled) : Workspace where
  host := .bare
  store := store
  expressions := #[⟨x, 0, .nil⟩]

def mixed : Text × Calculation :=
  (Text.ofString "(a + 16) * b / 4",
    .binary .divide
      (.binary .multiply (.binary .add (.named "a") (.numeral false (Text.ofString "16")))
        (.named "b"))
      (.numeral false (Text.ofString "4")))

theorem calculates_mixed : Calculates (strict none) ledger mixed.1 mixed.2 := by
  refine calculates_of_test ?_
  rw [Context.compile, Context.element, Context.parse, Grammar.parse_standing]
  decide +kernel

theorem plain_mixed :
    mixed.2.Plain ((strict none).scope .bare ledger (strict none).options) ledger := by
  intro name hname
  rcases List.mem_cons.1 hname with rfl | hname
  · exact ⟨.short, -7, Build.firstName_bare rfl rfl (by decide +kernel), by decide +kernel⟩
  · obtain rfl := List.mem_singleton.1 hname
    exact ⟨.machine, 2, Build.firstName_bare rfl rfl (by decide +kernel), by decide +kernel⟩

/-- Operands of three types, and a quotient that is truncated: whatever value the text has is 4. -/
theorem evaluate_mixed : ∃ x, (strict none).compile .bare ledger (strict none).options
    mixed.1 = .ok x ∧
    ∀ v w', (single ledger x).evaluate 0 = (.ok v, w') → v = .int .long 4 := by
  obtain ⟨x, tree, hcompile, htree, hcalculation⟩ := calculates_mixed
  refine ⟨x, hcompile, fun v w' hv => ?_⟩
  obtain ⟨k, m, hk, hm, -, hnone, -⟩ :=
    (evaluate_exact (w := single ledger x) rfl rfl rfl hcompile htree hcalculation
    rfl rfl plain_mixed).1 v w' hv
  rw [hnone rfl]
  have hk' : mixed.2.kind? ledger.number? = some .long := by decide +kernel
  have hm' : mixed.2.exact ledger.number? = some 4 := by decide +kernel
  cases hk.symm.trans hk'
  cases hm.symm.trans hm'
  rfl

/-- A store with a small number. -/
def negative : Store where
  caseSensitive := true
  entries := [(nameKey true "x", ⟨"x", .int .sbyte, .value (.int .sbyte (-1))⟩)]

theorem calculates_negative :
    Calculates (strict (some (.int .uint))) negative (Text.ofString "x") (.named "x") := by
  refine calculates_of_test ?_
  rw [Context.compile, Context.element, Context.parse, Grammar.parse_standing]
  decide +kernel

/-- Where the type of the result is declared, a checked calculation can have a value that is not its
exact one: the conversion of a small signed number to an unsigned type is not tested. -/
theorem evaluate_declared_inexact : ∃ x tree,
    (strict (some (.int .uint))).compile .bare negative (strict (some (.int .uint))).options
      (Text.ofString "x") = .ok x ∧
    (strict (some (.int .uint))).parse (Text.ofString "x") = .ok tree ∧
      tree.calculation? = some (.named "x") ∧
    (Calculation.named "x").exact negative.number? = some (-1) ∧
    (single negative x).evaluate 0 = (.ok (.int .uint 4294967295), single negative x) := by
  obtain ⟨x, tree, hcompile, htree, hcalculation⟩ := calculates_negative
  have hnumber : negative.number? "x" = some (.sbyte, -1) := by decide +kernel
  have hexact : (Calculation.named "x").exact negative.number? = some (-1) := by
    rw [Calculation.exact, hnumber]
    rfl
  have hkind : (Calculation.named "x").kind? negative.number? = some .sbyte := by
    rw [Calculation.kind?, hnumber]
    rfl
  have hplain : (Calculation.named "x").Plain ((strict (some (.int .uint))).scope .bare negative
      (strict (some (.int .uint))).options) (single negative x).store := by
    intro name hname
    obtain rfl := List.mem_singleton.1 hname
    exact ⟨.sbyte, -1, Build.firstName_bare rfl rfl (by decide +kernel), hnumber⟩
  refine ⟨x, tree, hcompile, htree, hcalculation, hexact, ?_⟩
  obtain ⟨k, hk, ⟨m, hm, -, hvalue⟩ | ⟨g, hg, -⟩⟩ :=
    evaluate_calculation (w := single negative x) (n := 0) rfl rfl rfl hcompile htree
      hcalculation rfl rfl hplain
  · cases hk.symm.trans hkind
    cases hm.symm.trans hexact
    exact hvalue
  · -- a variable has no operator that could fail
    rcases hg with ⟨-, op, l, r, hmem, -⟩ | ⟨-, p, hmem, k', n, hk', hn, hover⟩
    · cases List.mem_singleton.1 hmem
    · obtain rfl := List.mem_singleton.1 hmem
      cases hk'.symm.trans hkind
      cases hn.symm.trans hexact
      cases hover

end Workspace

end Formulary
