import Formulary.Proofs.Build.Negated
import Formulary.Proofs.Build.Opposite
import Formulary.Proofs.Session.Exactness

/-!
# Negated texts

A text in parentheses behind a minus sign has the negated value of the text, and behind two minus
signs the value of the text again. Numerals are the exception: a sign before a numeral is read with
it, whether or not it has one already.
-/

namespace Formulary

open Machine Machine.Lines

/-- What is converted has a value if the conversion of it has one. -/
theorem Build.run_of_implicit {s : Scope} {x e : Element} {t : Ty} {env : Environment}
    {last : Option Value} {v : Value} {tally tally' : Tally} (h : s.implicit x t = .ok e)
    (he : (e.eval env last).run tally = (.ok v, tally')) :
    ∃ a tally'', (x.eval env last).run tally = (.ok a, tally'') := by
  unfold Scope.implicit at h
  split at h
  · cases h
    exact ⟨v, tally', he⟩
  · split at h
    · cases h
      obtain ⟨a, tally'', ha, -⟩ := run_bind_eq_ok.1 he
      exact ⟨a, tally'', ha⟩
    · cases h

/-- The element of a text, before it is converted to the type of its result. -/
def Context.root (c : Context) (host : Host) (store : Store) (o : Options) (text : Text) :
    Except Failure Element := do
  let tree ← c.parse text
  Build.element (c.scope host store o) tree

theorem Context.root_of_compile {c : Context} {host : Host} {store : Store} {o : Options}
    {text : Text} {x : Compiled}
    (h : c.compile host store o text = .ok x) : ∃ root, c.root host store o text = .ok root := by
  obtain ⟨e, he, -⟩ := compile_eq_ok h
  obtain ⟨tree, root, htree, hroot, -⟩ := element_eq_ok he
  exact ⟨root, by rw [Context.root, htree]; exact hroot⟩

/-- The element of a text in parentheses behind a minus sign. -/
theorem Context.minus_of_root {c : Context} {host : Host} {store : Store} {o : Options}
    {text : Text} {x x' : Element}
    {lexical : Lexical.Options} (hlexer : c.lexer = .ofOptions lexical)
    (hvalid : lexical.fault? = none) (h : c.root host store o text = .ok x)
    (h' : c.root host store o (Lexical.negated text) = .ok x') :
    Build.minus (c.scope host store o) x = .ok x' := by
  obtain ⟨tree, htree, h⟩ := bind_eq_ok.1 h
  obtain ⟨tree', htree', h'⟩ := bind_eq_ok.1 h'
  rw [Context.parse_eq_ok, hlexer] at htree htree'
  exact Build.minus_of_parse hvalid htree htree' h h'

/-- The values of a text and of the text in parentheses behind a minus sign. -/
theorem Context.opposes_of_root {c : Context} {host : Host} {store : Store} {o : Options}
    {text : Text} {x x' : Element} {lexical : Lexical.Options} (hoperators : c.operators = {})
    (hlexer : c.lexer = .ofOptions lexical) (hvalid : lexical.fault? = none)
    (h : c.root host store o text = .ok x)
    (h' : c.root host store o (Lexical.negated text) = .ok x')
    {env : Environment} {last : Option Value} {tally tally' tally'' : Tally} {a a' : Value}
    (ha : (x.eval env last).run tally = (.ok a, tally'))
    (ha' : (x'.eval env last).run tally = (.ok a', tally'')) (hhas : host.Has x.type a) :
    (x.type.isProper = true ∧ x'.type.isProper = true) ∧ (Build.Signed o x → a' = a) ∧
      (¬Build.Signed o x → a.Opposes o.checked a') ∧
      (x.numeral? = none → a.Negation o.checked a' ∧ x'.numeral? = none) := by
  have hops : (c.scope host store o).operators = {} := hoperators
  have hminus := minus_of_root hlexer hvalid h h'
  obtain ⟨tree, -, helement⟩ := bind_eq_ok.1 h
  have hspelled := Build.spelled_element helement
  obtain ⟨hsame, hopposes⟩ := Build.opposes_of_minus hops hspelled hhas hminus ha ha'
  refine ⟨Build.minus_isProper hops hspelled hminus, hsame, hopposes, fun hnumeral => ?_⟩
  rw [Build.minus_eq, hnumeral] at hminus
  exact ⟨(Build.negation_of_opposite hops hhas hminus ha ha').1, Build.blank_opposite _ hminus⟩

namespace Workspace

/-- Two expressions that have the same owner. -/
def SameOwner (w : Workspace) (i j : Nat) : Prop :=
  (w.expressions[i]?).map (·.owner) = (w.expressions[j]?).map (·.owner)

theorem SameOwner.eq {w : Workspace} {i j : Nat} {e e' : Expression} (h : w.SameOwner i j)
    (he : w.expressions[i]? = some e) (he' : w.expressions[j]? = some e') : e.owner = e'.owner := by
  rw [SameOwner, he, he'] at h
  exact Option.some_inj.1 h

theorem Later.after {w w' w'' : Workspace} (h : w'.Later w'') (hnext : w.Next w') :
    w.Later w'' := by
  induction h with
  | refl => exact .tail .refl hnext
  | tail _ hlast ih => exact .tail ih hlast

section Compiled

variable {w w₁ w₂ : Workspace} {n i : Nat} {c : Context} {f : Options → Options} {text : Text}
  {e : Expression}

/-- Compiling a text leaves the variables and the context as they are. -/
theorem compile_keeps (hc : w.contexts[n]? = some c) (h : w.compile n f text = .ok (i, w₁)) :
    w₁.host = w.host ∧ w₁.store = w.store ∧ w₁.contexts[n]? = some c ∧
      ∃ e, w₁.expressions[i]? = some e ∧ c.compile w.host w.store (f c.options) text =
        .ok e.compiled := by
  rw [Workspace.compile, hc] at h
  obtain ⟨compiled, hcompiled, h⟩ := bind_eq_ok.1 h
  dsimp only at h
  split at h
  · cases h
    exact ⟨rfl, rfl, hc, _, Array.getElem?_push_size, hcompiled⟩
  · cases h
    rw [cloneContext, hc]
    exact ⟨rfl, rfl, getElem?_push_of_getElem? hc _, _, Array.getElem?_push_size, hcompiled⟩

/-- An expression of a later workspace that a text was compiled to. -/
theorem compiled_later (sound : w.Sound) (hc : w.contexts[n]? = some c)
    (h : w.compile n f text = .ok (i, w₁))
    (hlater : w₁.Later w₂) : ∃ e, w₂.expressions[i]? = some e ∧
    w₂.Runs (c.scope w.host w.store (f c.options)) e ∧
      c.compile w.host w.store (f c.options) text = .ok e.compiled := by
  obtain ⟨hevolves, e₁, he₁, hruns₁, -⟩ := sound.compile hc h
  obtain ⟨-, -, -, e₁', he₁', hcompiled⟩ := compile_keeps hc h
  cases he₁.symm.trans he₁'
  obtain ⟨e, he, heq, hruns⟩ := hruns₁.kept (hevolves.2.later hlater).1 he₁
  exact ⟨e, he, hruns, heq ▸ hcompiled⟩

end Compiled

section Evaluated

variable {w w' w'' : Workspace} {i j : Nat} {c : Context} {host : Host} {store : Store}
  {o : Options} {text : Text}
  {e e' : Expression} {v v' : Value}

theorem environment_eq (h : e.owner = e'.owner) : w.environment i e = w.environment i e' := by
  rw [environment, environment, h]

/-- The value of an expression is the one of the element of its text, converted to a type that is
declared for it. -/
theorem value_of_evaluate (sound : w.Sound) (he : w.expressions[i]? = some e)
    (hruns : w.Runs (c.scope host store o) e)
    (hcompile : c.compile host store o text = .ok e.compiled) (hv : w.evaluate i = (.ok v, w')) :
    ∃ root a tally, c.root host store o text = .ok root ∧
      (root.eval (w.environment w.expressions.size e) none).run w.tally = (.ok a, tally) ∧
        host.Has root.type a ∧
      (c.operators = {} → root.type.isProper = true → v = o.resultType.elim a a.returned) := by
  obtain ⟨x, hx, hprogram, -⟩ := Context.compile_eq_ok hcompile
  obtain ⟨tree, root, htree, hroot, hresult⟩ := Context.element_eq_ok hx
  rw [evaluate_eq he, Element.program_eq_ok hprogram, Element.runProgram_assembled] at hv
  obtain ⟨tally, hrun⟩ : ∃ tally, (x.eval (w.environment w.expressions.size e) none).run w.tally =
    (.ok v, tally) :=
    ⟨_, Prod.ext (Prod.mk.inj hv).1 rfl⟩
  obtain ⟨a, tally', ha⟩ := Build.run_of_implicit hresult hrun
  have hsuits := hruns.suits sound fun n tally tally' v h =>
    sound.valueOf_genuine w.expressions.size n h
  have hhas : host.Has root.type a :=
    (Build.element_typed hroot).eval_gives hruns.honest hsuits _ _ _ ha
  refine ⟨root, a,
    tally', by rw [Context.root, htree]; exact hroot, ha, hhas, fun hoperators hproper => ?_⟩
  have hops : (c.scope host store o).operators.implicit = [] := by rw [Context.scope, hoperators]
  obtain ⟨rfl, -⟩ := Build.returned_of_implicit hops hresult hproper hhas ha hrun
  cases o.resultType with
  | some t => rfl
  | none =>
    have htype := hhas.type_of_isProper hproper
    have hnull : ¬(root.type == .null) = true := fun hnull => by
      rw [eq_of_beq hnull] at hproper
      cases hproper
    simp only [Option.getD_none, Option.elim_none]
    rw [if_neg hnull, Value.returned, if_pos htype]

end Evaluated

/-- In any session, a text in parentheses behind a minus sign has the negated value of the text,
before both are converted to a type that is declared for them. Only where the text is a numeral that
has a sign already it has the same value. What is no numeral has its value again behind two minus
signs. -/
theorem evaluate_negated {host : Host} {c₀ c : Context} {lexical : Lexical.Options}
    {w w₁ w₂ : Workspace} {n i j : Nat}
    {f : Options → Options} {text : Text} (honest : host.Honest) (hc₀ : c₀.Honest host)
    (hw : (create host c₀).Later w) (hc : w.contexts[n]? = some c) (hoperators : c.operators = {})
    (hlexer : c.lexer = .ofOptions lexical) (hvalid : lexical.fault? = none)
    (hcompile : w.compile n f text = .ok (i, w₁))
    (hcompile' : w₁.compile n f (Lexical.negated text) = .ok (j, w₂)) :
    ∃ root, c.root host w.store (f c.options) text = .ok root ∧
      (∀ w₃ v v' u u', w₂.Later w₃ → w₃.SameOwner i j → w₃.evaluate i = (.ok v, u) →
        w₃.evaluate j = (.ok v', u') →
        ∃ a a', v = (f c.options).resultType.elim a a.returned ∧
          v' = (f c.options).resultType.elim a' a'.returned ∧
          (Build.Signed (f c.options) root → a' = a) ∧
          (¬Build.Signed (f c.options) root → a.Opposes (f c.options).checked a')) ∧
      ∀ k w₃ w₄ v v' v'' u u' u'', root.numeral? = none →
        w₂.compile n f (Lexical.negated (Lexical.negated text)) = .ok (k, w₃) → w₃.Later w₄ →
        w₄.SameOwner i j → w₄.SameOwner j k → w₄.evaluate i = (.ok v, u) →
          w₄.evaluate j = (.ok v', u') →
        w₄.evaluate k = (.ok v'', u'') →
        ∃ a a'', v = (f c.options).resultType.elim a a.returned ∧
          v'' = (f c.options).resultType.elim a'' a''.returned ∧
          (a.isHeld = true → a.SameNumber a'') := by
  obtain ⟨hkeeps, hsound⟩ := (create_sound honest hc₀).later hw
  have hhost : w.host = host := hkeeps.host
  obtain ⟨hhost₁, hstore₁, hc₁, -⟩ := compile_keeps hc hcompile
  obtain ⟨hhost₂, hstore₂, hc₂, -⟩ := compile_keeps hc₁ hcompile'
  have hsound₁ := (hsound.compile hc hcompile).1.2
  have hsound₂ := (hsound₁.compile hc₁ hcompile').1.2
  -- What an expression was compiled from is what it is in a workspace after that.
  have hfound : ∀ {w₃}, w₂.Later w₃ → w₃.Sound ∧ ∃ e e', w₃.expressions[i]? = some e ∧
    w₃.expressions[j]? = some e' ∧
      w₃.Runs (c.scope host w.store (f c.options)) e ∧
        w₃.Runs (c.scope host w.store (f c.options)) e' ∧
      c.compile host w.store (f c.options) text = .ok e.compiled ∧
      c.compile host w.store (f c.options) (Lexical.negated text) = .ok e'.compiled := by
    intro w₃ hlater
    obtain ⟨e, he, hruns, hx⟩ := compiled_later hsound hc hcompile
      (hlater.after (.compile hcompile'))
    obtain ⟨e', he', hruns', hx'⟩ := compiled_later hsound₁ hc₁ hcompile' hlater
    rw [hhost₁, hstore₁, hhost] at hruns' hx'
    rw [hhost] at hruns hx
    exact ⟨(hsound₂.later hlater).2, e, e', he, he', hruns, hruns', hx, hx'⟩
  obtain ⟨root, hroot⟩ : ∃ root, c.root host w.store (f c.options) text = .ok root := by
    obtain ⟨-, e, -, -, -, -, -, hx, -⟩ := hfound .refl
    exact Context.root_of_compile hx
  refine ⟨root, hroot, ?_, ?_⟩
  · intro w₃ v v' u u' hlater howner hv hv'
    obtain ⟨hsound₃, e, e', he, he', hruns, hruns', hx, hx'⟩ := hfound hlater
    obtain ⟨x, a, tally, hroot₁, ha, hhas, hreturned⟩ := value_of_evaluate hsound₃ he hruns hx hv
    obtain ⟨x', a', tally', hroot', ha', -, hreturned'⟩ :=
      value_of_evaluate hsound₃ he' hruns' hx' hv'
    cases hroot.symm.trans hroot₁
    rw [← environment_eq (howner.eq he he')] at ha'
    obtain ⟨hproper, hsame, hopposes, -⟩ :=
      Context.opposes_of_root hoperators hlexer hvalid hroot hroot' ha ha' hhas
    exact ⟨a, a', hreturned hoperators hproper.1, hreturned' hoperators hproper.2, hsame, hopposes⟩
  · intro k w₃ w₄ v v' v'' u u' u'' hnumeral hcompile'' hlater howner howner' hv hv' hv''
    obtain ⟨hsound₄, e, e', he, he', hruns, hruns', hx, hx'⟩ :=
      hfound (hlater.after (.compile hcompile''))
    obtain ⟨e'', he'', hruns'', hx''⟩ := compiled_later hsound₂ hc₂ hcompile'' hlater
    rw [hhost₂, hstore₂, hhost₁, hstore₁, hhost] at hruns'' hx''
    obtain ⟨x, a, tally, hroot₁, ha, hhas, hreturned⟩ := value_of_evaluate hsound₄ he hruns hx hv
    obtain ⟨x', a', tally', hroot', ha', hhas', -⟩ := value_of_evaluate hsound₄ he' hruns' hx' hv'
    obtain ⟨x'', a'', tally'', hroot'', ha'', -, hreturned''⟩ :=
      value_of_evaluate hsound₄ he'' hruns'' hx'' hv''
    cases hroot.symm.trans hroot₁
    rw [← environment_eq (howner'.eq he' he''), ← environment_eq (howner.eq he he')] at ha''
    rw [← environment_eq (howner.eq he he')] at ha'
    obtain ⟨hproper, -, -, hnegation⟩ :=
      Context.opposes_of_root hoperators hlexer hvalid hroot hroot' ha ha' hhas
    obtain ⟨hnegation, hnumeral'⟩ := hnegation hnumeral
    obtain ⟨hproper', -, -, hnegation'⟩ :=
      Context.opposes_of_root hoperators hlexer hvalid hroot' hroot'' ha' ha'' hhas'
    exact ⟨a, a'', hreturned hoperators hproper.1, hreturned'' hoperators hproper'.2,
      hnegation.twice (hnegation' hnumeral').1⟩

/-- A product of variables. -/
def product : Text := Text.ofString "a * b"

/-- The product compiles, also in parentheses behind a minus sign, and is no numeral. -/
theorem compile_product :
    (((strict none).compile .bare ledger (strict none).options product).isOk &&
    (((strict none).compile .bare ledger (strict none).options (Lexical.negated product)).isOk &&
    ((strict none).root .bare ledger (strict none).options product).toOption.all fun x =>
      x.numeral?.isNone)) = true := by
  unfold Context.root Context.compile Context.element Context.parse
  simp only [Grammar.parse_standing]
  decide +kernel

/-- The value of `-(a * b)` is opposite to that of `a * b`. -/
theorem evaluate_negated_product : ∃ w₁ w₂,
    ({ create .bare (strict none) with
      store := ledger } : Workspace).compile 0 id product = .ok (0, w₁) ∧
      w₁.compile 0 id (Lexical.negated product) = .ok (1, w₂) ∧
      ∀ v v' u u', w₂.evaluate 0 = (.ok v, u) → w₂.evaluate 1 = (.ok v', u') →
        v.Opposes true v' := by
  obtain ⟨hok, hok', hnumeral⟩ := by
    have h := compile_product
    rwa [Bool.and_eq_true, Bool.and_eq_true] at h
  obtain ⟨x, hx⟩ := exists_ok_iff_isOk.2 hok
  obtain ⟨x', hx'⟩ := exists_ok_iff_isOk.2 hok'
  let w : Workspace := { create .bare (strict none) with store := ledger }
  let w₁ : Workspace := ⟨.bare, ledger, #[strict none, strict none], #[⟨x, 1, .nil⟩], []⟩
  let w₂ : Workspace := ⟨.bare, ledger, #[strict none, strict none, strict none],
    #[⟨x, 1, .nil⟩, ⟨x', 2, .nil⟩], []⟩
  have hcompile : w.compile 0 id product = .ok (0, w₁) := by
    show ((strict none).compile .bare ledger (strict none).options _ >>= _) = _
    rw [hx]
    rfl
  have hcompile' : w₁.compile 0 id (Lexical.negated product) = .ok (1, w₂) := by
    show ((strict none).compile .bare ledger (strict none).options _ >>= _) = _
    rw [hx']
    rfl
  have hw : (create .bare (strict none)).Later w := by
    let one : Store := { caseSensitive := true, entries := ledger.entries.take 1 }
    have hfirst : (create .bare (strict none)).store.define .bare "a" none
      (.value (.int .short (-7))) = (.ok (), one) := rfl
    have hsecond : one.define .bare "b" none (.value (.int .machine 2)) = (.ok (), ledger) := rfl
    have hheld : ∀ k n, Held.Genuine .bare (.value (.int k n)) := fun _ _ => trivial
    exact .tail (.tail .refl (.define (hheld .short (-7)) hfirst))
      (.define (hheld .machine 2) hsecond)
  have honest : (strict none).Honest .bare := ⟨.nil, ⟨nofun, nofun, nofun, nofun⟩, trivial⟩
  obtain ⟨root, hroot, hvalues, -⟩ := evaluate_negated Host.bare_honest honest hw rfl rfl rfl rfl
    hcompile hcompile'
  have hsigned : ¬Build.Signed (strict none).options root := by
    rintro ⟨n, hn, -⟩
    have hroot' : (strict none).root .bare ledger (strict none).options product = .ok root := hroot
    rw [hroot', Except.toOption, Option.all_some, hn] at hnumeral
    cases hnumeral
  refine ⟨w₁, w₂, hcompile, hcompile', fun v v' u u' hv hv' => ?_⟩
  obtain ⟨a, a', rfl, rfl, -, hopposes⟩ := hvalues w₂ v v' u u' .refl rfl hv hv'
  exact hopposes hsigned

/-- Whether a text compiles in a context to an expression that has an integer as its value. -/
def valuedAt (c : Context) (n : Int) (text : Text) : Bool :=
  match c.compile .bare {} c.options text with
  | .ok x =>
    match ((single {} x).evaluate 0).1 with
    | .ok (.int .int m) => m == n
    | _ => false
  | .error _ => false

theorem exists_of_valuedAt {c : Context} {n : Int} {text : Text} (h : valuedAt c n text = true) :
    ∃ x, c.compile .bare {} c.options text = .ok x ∧
      ((single {} x).evaluate 0).1 = .ok (.int .int n) := by
  unfold valuedAt at h
  split at h
  · rename_i x hx
    split at h
    · rename_i m hm
      exact ⟨x, hx, by rw [hm, eq_of_beq h]⟩
    · cases h
  · cases h

/-- A minus sign before a numeral in parentheses that has a sign makes nothing of it: `-(-5)` is -5,
as `-5` is. -/
theorem evaluate_signed_numeral : ∃ x x',
    (strict none).compile .bare {} (strict none).options (Text.ofString "-5") = .ok x ∧
    (strict none).compile .bare {} (strict none).options
      (Lexical.negated (Text.ofString "-5")) = .ok x' ∧
    ((single {} x).evaluate 0).1 = .ok (.int .int (-5)) ∧
      ((single {} x').evaluate 0).1 = .ok (.int .int (-5)) ∧
    ¬(Value.int .int (-5)).Opposes true (.int .int (-5)) := by
  have hplain : valuedAt (strict none) (-5) (Text.ofString "-5") = true := by
    rw [valuedAt, Context.compile, Context.element, Context.parse, Grammar.parse_standing]
    decide +kernel
  have hnegated : valuedAt (strict none) (-5) (Lexical.negated (Text.ofString "-5")) = true := by
    rw [valuedAt, Context.compile, Context.element, Context.parse, Grammar.parse_standing]
    decide +kernel
  obtain ⟨x, hx, hvalue⟩ := exists_of_valuedAt hplain
  obtain ⟨x', hx', hvalue'⟩ := exists_of_valuedAt hnegated
  refine ⟨x, x', hx, hx', hvalue, hvalue', ?_⟩
  rintro ⟨-, hexact⟩
  exact absurd (hexact rfl rfl) (by decide)

end Workspace

end Formulary
