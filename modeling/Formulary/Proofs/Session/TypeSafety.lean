import Formulary.Proofs.Build.Renamed
import Formulary.Proofs.Build.Resolved
import Formulary.Proofs.Grammar.Steering
import Formulary.Proofs.Session.Supply

/-!
# Type safety of expressions

However a workspace changes after a text was compiled in it, the expression keeps its type: its
values are of the type it has, and the steps of its runs find operands of the types they ask for.
The one exception is a test for membership whose items are compared by an overload of equality that
does not give a boolean.
-/

namespace Formulary

open Machine Machine.Lines

variable {host : Host}

/-- An honest context gives an honest scope. -/
theorem Context.Honest.scope (honest : host.Honest) {c : Context} (h : c.Honest host)
    (store : Store) (o : Options) :
    (c.scope host store o).Honest :=
  ⟨honest, h.imports, h.operators⟩

/-- A compiled text is the program of a typed element, of the type that is declared for it. -/
theorem Context.compile_typed {c : Context} {store : Store} {o : Options} {text : Text}
    {compiled : Compiled} (h : c.compile host store o text = .ok compiled) :
    ∃ x, Typed (c.scope host store o) none x ∧ compiled.program = assembled (x.body 0) ∧
      compiled.type = x.type ∧
      ∀ t, o.resultType = some t → x.type = t := by
  obtain ⟨e, he, h⟩ := bind_eq_ok.1 h
  obtain ⟨tree, -, he⟩ := bind_eq_ok.1 he
  obtain ⟨root, hroot, he⟩ := bind_eq_ok.1 he
  have htyped := Build.element_typed hroot
  dsimp only at he
  split at he
  · rename_i x hx
    cases he
    obtain ⟨hx, htype⟩ := Build.implicit_typed htyped hx
    rw [Element.program_eq] at h
    split at h
    · rename_i program hprogram
      cases h
      split at hprogram
      · cases hprogram
        refine ⟨e, hx, rfl, rfl, fun t ht => ?_⟩
        rw [htype, ht]
        rfl
      · cases hprogram
    · cases h
  · cases he

namespace Workspace

/-- What an expression is evaluated in, with formulas up to a depth. -/
def environment (w : Workspace) (depth : Nat) (e : Expression) : Environment where
  host := w.host
  owner := e.owner
  load := w.store.load w.host (w.valueOf depth)
  demand := w.store.demand w.host

theorem valueOf_succ {w : Workspace} {n : Nat} {e : Expression}
    (h : w.expressions[n]? = some e) (depth : Nat) :
    w.valueOf (depth + 1) n = runProgram (w.environment depth e) e.compiled.program := by
  rw [valueOf, h]
  rfl

/-- An expression of a typed element, with an owner that serves the type of its scope. Only values
of this type can become its owner, since it is the type of the owner of its context. -/
structure Runs (w : Workspace) (s : Scope) (e : Expression) : Prop where
  honest : s.Honest
  host : s.host = w.host
  element : ∃ x, Typed s none x ∧ e.compiled.program = assembled (x.body 0) ∧
    e.compiled.type = x.type
  owner : ∀ o, s.ownerType = some o → w.host.Serves o e.owner ∧
    ∃ c, w.contexts[e.context]? = some c ∧ c.owner.type? = some o

structure Sound (w : Workspace) : Prop where
  host : w.host.Honest
  store : w.store.Genuine w.host
  contexts : ∀ (n : Nat) (c : Context), w.contexts[n]? = some c → c.Honest w.host
  expressions : ∀ (n : Nat) (e : Expression), w.expressions[n]? = some e → ∃ s, w.Runs s e

inductive Next (w : Workspace) : Workspace → Prop
  | define {name : String} {type : Option Ty} {held : Held} {s : Store}
      (hheld : held.Genuine w.host)
    (h : w.store.define w.host name type held = (.ok (), s)) : Next w { w with store := s }
  | set {name : String} {held : Held} {s : Store} (hheld : held.Genuine w.host)
    (h : w.store.set w.host name held = (.ok (), s)) : Next w { w with store := s }
  | remove (name : String) : Next w { w with store := w.store.remove name }
  | clear : Next w { w with store := w.store.clear }
  | hook {hooks : Hooks} (h : hooks.Genuine w.host) :
      Next w { w with store := { w.store with hooks := hooks } }
  | range (ranging : Ranging) : Next w { w with store := { w.store with ranging := ranging } }
  | evaluate (n : Nat) : Next w (w.evaluate n).2
  | setOwner {n : Nat} {owner : Value} {w' : Workspace} (howner : owner.Genuine w.host)
    (h : w.setOwner n owner = .ok w') : Next w w'
  | compile {n m : Nat} {f : Options → Options} {text : Text} {w' : Workspace}
      (h : w.compile n f text = .ok (m, w')) :
    Next w w'
  | cloneExpression (n : Nat) : Next w (w.cloneExpression n).2
  | cloneContext (n : Nat) : Next w (w.cloneContext n).2
  | setOptions (n : Nat) (f : Options → Options) : Next w (w.setOptions n f)
  | rebuildLexer {n : Nat} {w' : Workspace} (h : w.rebuildLexer n = .ok w') : Next w w'
  | importInto (n : Nat) (path : List String) {additions : List (Except String Member)}
    (hadditions : Imports.Honest w.host (Imports.accepted additions).1) :
    Next w (w.importInto n path additions).1
  | register {n : Nat} {f : Operators → Except String Operators} {w' : Workspace}
      (hf : Operators.Registers w.host f)
    (h : w.register n f = .ok w') : Next w w'

inductive Later (w : Workspace) : Workspace → Prop
  | refl : Later w w
  | tail {w' w'' : Workspace} (h : Later w w') (hnext : Next w' w'') : Later w w''

/-- What a later workspace keeps of an earlier one: the owners of contexts, and expressions with
their programs and contexts. An expression keeps its owner or has another of the type of the owner
of its context. -/
structure Keeps (w w' : Workspace) : Prop where
  host : w'.host = w.host
  contexts : ∀ (n : Nat) (c : Context), w.contexts[n]? = some c → ∃ c', w'.contexts[n]? = some c' ∧
    c'.owner = c.owner
  expressions : ∀ (n : Nat) (e : Expression), w.expressions[n]? = some e → ∃ e',
    w'.expressions[n]? = some e' ∧
    e'.compiled = e.compiled ∧ e'.context = e.context ∧ (e'.owner = e.owner ∨
      ∀ c o, w.contexts[e.context]? = some c → c.owner.type? = some o → w.host.Serves o e'.owner)

section Preservation

variable {w w' w'' : Workspace}

theorem Keeps.trans (h : w.Keeps w') (h' : w'.Keeps w'') : w.Keeps w'' := by
  refine ⟨h'.host.trans h.host, fun n c hc => ?_, fun n e he => ?_⟩
  · obtain ⟨c', hc', howner⟩ := h.contexts n c hc
    obtain ⟨c'', hc'', howner'⟩ := h'.contexts n c' hc'
    exact ⟨c'', hc'', howner'.trans howner⟩
  · obtain ⟨e', he', hcompiled, hcontext, howner⟩ := h.expressions n e he
    obtain ⟨e'', he'', hcompiled', hcontext', howner'⟩ := h'.expressions n e' he'
    refine ⟨e'', he'', hcompiled'.trans hcompiled, hcontext'.trans hcontext, ?_⟩
    rcases howner' with heq | hserves
    · rw [heq]
      exact howner
    · refine .inr fun c o hc ho => ?_
      obtain ⟨c', hc', hcowner⟩ := h.contexts _ c hc
      rw [← h.host]
      exact hserves c' o (by rwa [hcontext]) (by rwa [hcowner])

/-- A workspace that keeps what an expression rests on runs it as before. -/
theorem Runs.kept {s : Scope} {e : Expression} {n : Nat} (h : w.Runs s e) (keeps : w.Keeps w')
    (he : w.expressions[n]? = some e) : ∃ e', w'.expressions[n]? = some e' ∧
    e'.compiled = e.compiled ∧ w'.Runs s e' := by
  obtain ⟨e', he', hcompiled, hcontext, howner⟩ := keeps.expressions n e he
  refine ⟨e', he', hcompiled, h.honest, h.host.trans
    keeps.host.symm, by rw [hcompiled]; exact h.element, fun o ho => ?_⟩
  obtain ⟨hserves, c, hc, htype⟩ := h.owner o ho
  obtain ⟨c', hc', hcowner⟩ := keeps.contexts _ c hc
  refine ⟨?_, c', by rwa [hcontext], by rwa [hcowner]⟩
  rw [keeps.host]
  rcases howner with heq | hnew
  · rwa [heq]
  · exact hnew c o hc htype

/-- A workspace with genuine values and honest contexts is sound, if it keeps the expressions of a
sound one and runs those it has besides. -/
theorem Sound.of_keeps (h : w.Sound) (keeps : w.Keeps w') (store : w'.store.Genuine w.host)
    (contexts : ∀ (n : Nat) (c : Context), w'.contexts[n]? = some c → c.Honest w.host)
    (expressions : ∀ (n : Nat) (e : Expression), w'.expressions[n]? = some e →
      n < w.expressions.size ∨ ∃ s, w'.Runs s e) : w'.Sound := by
  refine ⟨keeps.host ▸ h.host, keeps.host ▸ store, fun n c hc =>
    keeps.host ▸ contexts n c hc, fun n e' he' => ?_⟩
  rcases expressions n e' he' with hn | hruns
  · have he := Array.getElem?_eq_getElem hn
    obtain ⟨s, hs⟩ := h.expressions n _ he
    obtain ⟨e'', he'', -, hruns⟩ := hs.kept keeps he
    rw [he'] at he''
    cases he''
    exact ⟨s, hruns⟩
  · exact hruns

/-- A later workspace that is sound and keeps what expressions rest on. -/
def Evolves (w w' : Workspace) : Prop := w.Keeps w' ∧ w'.Sound

theorem Evolves.trans (h : w.Evolves w') (h' : w'.Evolves w'') : w.Evolves w'' :=
  ⟨h.1.trans h'.1, h'.2⟩

section Arrays

variable {α : Type} {xs : Array α} {n : Nat} {x y : α}

theorem lt_size_of_getElem? (h : xs[n]? = some x) : n < xs.size :=
  (Array.getElem?_eq_some_iff.1 h).1

theorem getElem?_push_of_getElem? (h : xs[n]? = some x) (y : α) : (xs.push y)[n]? = some x := by
  have hne : n ≠ xs.size := Nat.ne_of_lt (lt_size_of_getElem? h)
  rw [Array.getElem?_push, if_neg hne, h]

theorem getElem?_or_eq_of_push (h : (xs.push y)[n]? = some x) : xs[n]? = some x ∨ x = y := by
  rw [Array.getElem?_push] at h
  split at h
  · exact .inr (Option.some.inj h).symm
  · exact .inl h

end Arrays

/-- Another store. -/
theorem Sound.restore (h : w.Sound) {s : Store} (hs : s.Genuine w.host) (tally : Tally) :
    w.Evolves { w with store := s, tally := tally } := by
  have keeps : w.Keeps { w with store := s, tally := tally } :=
    ⟨rfl, fun n c hc => ⟨c, hc, rfl⟩, fun n e he => ⟨e, he, rfl, rfl, .inl rfl⟩⟩
  exact ⟨keeps, h.of_keeps keeps hs h.contexts fun n e he => .inl (lt_size_of_getElem? he)⟩

/-- A context changed but for its owner. -/
theorem Sound.changeContext (h : w.Sound) {n : Nat} {f : Context → Context}
    (hf : ∀ c, w.contexts[n]? = some c → (f c).Honest w.host ∧ (f c).owner = c.owner) :
    w.Evolves (w.changeContext n f) := by
  have keeps : w.Keeps (w.changeContext n f) := by
    refine ⟨rfl, fun m c hc => ?_, fun m e he => ⟨e, he, rfl, rfl, .inl rfl⟩⟩
    simp only [Workspace.changeContext, Array.getElem?_modify]
    split
    · subst n
      exact ⟨f c, by rw [hc]; rfl, (hf c hc).2⟩
    · exact ⟨c, hc, rfl⟩
  refine ⟨keeps, h.of_keeps keeps h.store (fun m c hc => ?_) fun m e he =>
    .inl (lt_size_of_getElem? he)⟩
  simp only [Workspace.changeContext, Array.getElem?_modify] at hc
  split at hc
  · subst n
    obtain ⟨c₀, hc₀, rfl⟩ := Option.map_eq_some_iff.1 hc
    exact (hf c₀ hc₀).1
  · exact h.contexts m c hc

theorem Sound.stay (h : w.Sound) : w.Evolves w := h.restore h.store w.tally

/-- A copy of a context. -/
theorem Sound.cloneContext (h : w.Sound) (n : Nat) : w.Evolves (w.cloneContext n).2 := by
  unfold Workspace.cloneContext
  split
  · rename_i c hc
    have keeps : w.Keeps { w with contexts := w.contexts.push c } :=
      ⟨rfl, fun m c' hc' => ⟨c', getElem?_push_of_getElem? hc' c, rfl⟩, fun m e he =>
        ⟨e, he, rfl, rfl, .inl rfl⟩⟩
    refine ⟨keeps, h.of_keeps keeps h.store (fun m c' hc' => ?_) fun m e he =>
      .inl (lt_size_of_getElem? he)⟩
    rcases getElem?_or_eq_of_push hc' with hc' | rfl
    · exact h.contexts m c' hc'
    · exact h.contexts n _ hc
  · exact h.stay

/-- One more expression. -/
theorem Sound.addExpression (h : w.Sound) {s : Scope} {e : Expression} (hruns : w.Runs s e) :
    w.Evolves { w with expressions := w.expressions.push e } := by
  have keeps : w.Keeps { w with expressions := w.expressions.push e } :=
    ⟨rfl, fun m c hc => ⟨c, hc, rfl⟩, fun m e' he' =>
      ⟨e', getElem?_push_of_getElem? he' e, rfl, rfl, .inl rfl⟩⟩
  refine ⟨keeps, h.of_keeps keeps h.store h.contexts fun m e' he' => ?_⟩
  rcases getElem?_or_eq_of_push he' with he' | rfl
  · exact .inl (lt_size_of_getElem? he')
  · exact .inr ⟨s, hruns.honest, hruns.host, hruns.element, hruns.owner⟩

/-- An owner that the expression can have serves the type of the owner of its context. -/
theorem serves_of_ownerFault? {e : Expression} {owner : Value}
    (howner : owner.Genuine w.host) (h : w.Sound)
    (hfault : w.ownerFault? e owner = none) {c : Context} {o : Ty}
    (hc : w.contexts[e.context]? = some c)
    (ho : c.owner.type? = some o) : w.host.Serves o owner := by
  have hplain : o.isInterface = false := (h.contexts _ c hc).owner.not_interface ho
  refine ⟨howner, fun u hu => ?_⟩
  have hassignable : w.host.isAssignable u o = true := by
    simpa [ownerFault?, hc, ho, hu] using hfault
  simp only [Host.isAssignable, Host.suits, Host.implements, hplain, Bool.false_and, Bool.or_false,
    Bool.or_eq_true, Bool.and_eq_true, beq_iff_eq] at hassignable
  rcases hassignable with rfl | ⟨hunderlying, hlabel⟩
  · exact ⟨fun _ => rfl, .inl fun m hm => hm⟩
  · exact ⟨fun _ => hunderlying, Host.methodSet_of_underlying hunderlying hlabel⟩

/-- Another owner of an expression. -/
theorem Sound.setOwner (h : w.Sound) {n : Nat} {owner : Value} (howner : owner.Genuine w.host)
    (hset : w.setOwner n owner = .ok w') : w.Evolves w' := by
  unfold Workspace.setOwner at hset
  split at hset
  · cases hset
    exact h.stay
  · rename_i e he
    split at hset
    · cases hset
    · rename_i hfault
      cases hset
      have keeps : w.Keeps { w with expressions := w.expressions.modify n fun e =>
          { e with owner := owner } } := by
        refine ⟨rfl, fun m c hc => ⟨c, hc, rfl⟩, fun m e' he' => ?_⟩
        simp only [Array.getElem?_modify]
        split
        · subst n
          rw [he] at he'
          cases he'
          exact ⟨{ e with owner := owner }, by rw [he]; rfl, rfl, rfl,
            .inr fun c o hc ho => serves_of_ownerFault? howner h hfault hc ho⟩
        · exact ⟨e', he', rfl, rfl, .inl rfl⟩
      refine ⟨keeps, h.of_keeps keeps h.store h.contexts fun m e' he' => .inl ?_⟩
      have hlt := lt_size_of_getElem? he'
      rwa [Array.size_modify] at hlt

/-- The context of a new expression: the one it is compiled in, or a copy of it. -/
theorem Sound.home (h : w.Sound) {n : Nat} {c : Context} (hc : w.contexts[n]? = some c)
    (shared : Bool) :
    w.Evolves (if shared then (n, w) else w.cloneContext n).2 ∧
      (if shared then (n, w) else w.cloneContext
        n).2.contexts[(if shared then (n, w) else w.cloneContext n).1]? =
        some c := by
  cases shared with
  | true => exact ⟨h.stay, hc⟩
  | false =>
    refine ⟨h.cloneContext n, ?_⟩
    simp only [Bool.false_eq_true, if_false, Workspace.cloneContext, hc]
    exact Array.getElem?_push_size

/-- A compiled text is an expression of its scope. -/
theorem Sound.compile (h : w.Sound) {n m : Nat} {c : Context} {f : Options → Options} {text : Text}
    (hc : w.contexts[n]? = some c) (hcompile : w.compile n f text = .ok (m, w')) :
    w.Evolves w' ∧ ∃ e, w'.expressions[m]? = some e ∧
      w'.Runs (c.scope w.host w.store (f c.options)) e ∧
      ∀ t, (f c.options).resultType = some t → e.compiled.type = t := by
  rw [Workspace.compile, hc] at hcompile
  obtain ⟨compiled, hcompiled, hrest⟩ := bind_eq_ok.1 hcompile
  obtain ⟨hevolves, hhome⟩ := h.home hc (f c.options).shared
  obtain ⟨x, hx, hprogram, htype, hresult⟩ := Context.compile_typed hcompiled
  dsimp only at hrest
  generalize (if (f c.options).shared then (n, w) else w.cloneContext n) =
    home at hevolves hhome hrest
  obtain ⟨k, v⟩ := home
  cases hrest
  have hhonest : c.Honest w.host := h.contexts n c hc
  have hruns : v.Runs (c.scope w.host w.store (f c.options)) ⟨compiled, k, c.owner⟩ := by
    refine ⟨hhonest.scope h.host _ _, hevolves.1.host.symm, ⟨x, hx, hprogram, htype⟩, fun o ho =>
      ⟨?_, c, hhome, ho⟩⟩
    refine Host.Has.serves ⟨Host.fits_of_type ho (hhonest.owner.not_interface ho), ?_⟩
    exact hevolves.1.host ▸ hhonest.owner
  refine ⟨hevolves.trans (hevolves.2.addExpression hruns), _, Array.getElem?_push_size,
    ?_, fun t ht => ?_⟩
  · exact ⟨hruns.honest, hruns.host, hruns.element, hruns.owner⟩
  · exact htype.trans (hresult t ht)

/-- A step of a session keeps a workspace sound. -/
theorem Sound.next (h : w.Sound) (hnext : w.Next w') : w.Evolves w' := by
  cases hnext with
  | define hheld hs => exact h.restore (h.store.define hheld hs) w.tally
  | set hheld hs => exact h.restore (h.store.set hheld hs) w.tally
  | remove name => exact h.restore (h.store.remove name) w.tally
  | clear => exact h.restore h.store.clear w.tally
  | range ranging =>
    exact h.restore (s := { w.store with ranging := ranging })
      ⟨h.store.entries, h.store.hooks⟩ w.tally
  | @hook hooks hhooks =>
    exact h.restore (s := { w.store with hooks := hooks }) ⟨h.store.entries, hhooks⟩ w.tally
  | evaluate n => exact h.restore h.store _
  | setOwner howner hset => exact h.setOwner howner hset
  | @compile n m f text w' hcompile =>
    cases hc : w.contexts[n]? with
    | none =>
      rw [Workspace.compile, hc] at hcompile
      cases hcompile
    | some c => exact (h.compile hc hcompile).1
  | cloneExpression n =>
    unfold Workspace.cloneExpression
    split
    · rename_i e he
      obtain ⟨s, hs⟩ := h.expressions n e he
      exact h.addExpression hs
    · exact h.stay
  | cloneContext n => exact h.cloneContext n
  | setOptions n f =>
    unfold Workspace.setOptions
    split
    · exact h.stay
    · rename_i c hc
      have hchange := h.changeContext (n := n) (f := fun c' => { c' with options := f c.options })
        fun c' hc' => ⟨⟨(h.contexts n c' hc').imports, (h.contexts n c' hc').operators,
          (h.contexts n c' hc').owner⟩, rfl⟩
      refine hchange.trans (hchange.2.restore ?_ w.tally)
      split
      · exact h.store
      · exact h.store.withCaseRule _
  | @rebuildLexer n w' hbuild =>
    unfold Workspace.rebuildLexer at hbuild
    split at hbuild
    · cases hbuild
      exact h.stay
    · rename_i c hc
      obtain ⟨c', hc', rfl⟩ := map_eq_ok.1 hbuild
      unfold Context.withLexer at hc'
      split at hc'
      · cases hc'
      · cases hc'
        refine h.changeContext fun c' hc' => ?_
        rw [hc] at hc'
        cases hc'
        have hhonest := h.contexts n c hc
        exact ⟨⟨hhonest.imports, hhonest.operators, hhonest.owner⟩, rfl⟩
  | importInto n path hadditions =>
    unfold Workspace.importInto
    split
    · exact h.stay
    · rename_i c hc
      refine h.changeContext fun c' hc' => ?_
      rw [hc] at hc'
      cases hc'
      have hhonest := h.contexts n c hc
      exact ⟨⟨.add hadditions path hhonest.imports, hhonest.operators, hhonest.owner⟩, rfl⟩
  | @register n f w' hf hregister =>
    unfold Workspace.register at hregister
    split at hregister
    · cases hregister
      exact h.stay
    · rename_i c hc
      obtain ⟨ops, hops, rfl⟩ := map_eq_ok.1 hregister
      refine h.changeContext fun c' hc' => ?_
      have hhonest := h.contexts n c' hc'
      exact ⟨⟨hhonest.imports, hf.honest (h.contexts n c hc).operators hops, hhonest.owner⟩, rfl⟩

/-- So does a whole session, and an expression stays what it is. -/
theorem Sound.later (h : w.Sound) (hlater : w.Later w') : w.Evolves w' := by
  induction hlater with
  | refl => exact h.stay
  | tail _ hnext ih => exact ih.trans (ih.2.next hnext)

/-- What an expression of a sound workspace is evaluated in suits its scope. -/
theorem Runs.suits (h : w.Sound) {s : Scope} {e : Expression} (hruns : w.Runs s e) {depth : Nat}
    (hvalue : ∀ n tally tally' v, (w.valueOf depth n).run tally = (.ok v, tally') →
      v.Genuine w.host) :
    (w.environment depth e).Suits s where
  host := hruns.host.symm
  owner o ho := by
    rw [hruns.host]
    exact (hruns.owner o ho).1
  load name t := by
    rw [hruns.host]
    exact Store.load_gives h.host h.store hvalue name t
  demand name t args hargs := by
    rw [hruns.host] at hargs ⊢
    exact Store.demand_gives h.host h.store name t hargs

/-- The values of expressions are genuine, whatever formulas they read. -/
theorem Sound.valueOf_genuine (h : w.Sound) (depth n : Nat) {tally tally' : Tally} {v : Value}
    (hrun : (w.valueOf depth n).run tally = (.ok v, tally')) : v.Genuine w.host := by
  induction depth generalizing n tally tally' v with
  | zero => cases hrun
  | succ depth ih =>
    cases he : w.expressions[n]? with
    | none =>
      rw [valueOf, he] at hrun
      cases hrun
    | some e =>
      obtain ⟨s, hs⟩ := h.expressions n e he
      obtain ⟨x, hx, hprogram, -⟩ := hs.element
      rw [valueOf_succ he, hprogram] at hrun
      have hsuits := hs.suits h fun n tally tally' v hv => ih n hv
      exact hs.host ▸ (hx.gives hs.honest hsuits tally tally' v hrun).2

end Preservation

/-- A new workspace is sound. -/
theorem create_sound (honest : host.Honest) {c : Context} (hc : c.Honest host) :
    (create host c).Sound where
  host := honest
  store := ⟨nofun, ⟨nofun, nofun⟩⟩
  contexts n c' hc' := by
    cases n with
    | zero =>
      cases hc'
      exact hc
    | succ n => cases hc'
  expressions n e he := by cases he

section Likeness

/-- An overload of equality that answers with a number. -/
def likeness : Function :=
  ⟨⟨[.timeSpan, .timeSpan], false, [.int .int]⟩, fun _ => pure (.int .int 1)⟩

def alike : Context where
  options := {}
  operators := { binary := [(.equal, likeness)] }
  lexer := .ofOptions {}

theorem alike_honest : alike.Honest .bare where
  imports := .nil
  operators := by
    refine ⟨fun op f h => ?_, nofun, nofun, nofun⟩
    obtain ⟨rfl, rfl⟩ := Prod.mk.inj (List.mem_singleton.1 h)
    intro args t _ ht
    obtain rfl := Option.some.inj ht
    exact .pure (Host.has_of_type rfl rfl trivial)
  owner := trivial

def priced (n : Int) : Store :=
  { entries := [(nameKey false "price", ⟨"price", .int .int, .value (.int .int n)⟩)] }

theorem find?_priced (n : Int) : (priced n).find? "price" =
    some ⟨"price", .int .int, .value (.int .int n)⟩ :=
  (Store.at?_holding {} (nameKey false "price") _ _).trans (if_pos rfl)

theorem holding_priced (n : Int) (v : Variable) :
    (priced n).holding (nameKey false "price") v = ({} : Store).holding (nameKey false "price") v :=
  congrArg (Store.mk false · {} .plain) (if_pos (beq_self_eq_true _))

theorem set_priced (n m : Int) : (priced n).set .bare "price" (.value (.int .int m)) =
    (.ok (), priced m) :=
  (Store.set_of_find? (find?_priced n) rfl).trans (congrArg (Prod.mk _) (holding_priced n _))

/-- A store with a price that is looked up in one spelling only. -/
def pricedAs (name : String) (n : Int) : Store where
  caseSensitive := true
  entries := [(Text.ofString name, ⟨"price", .int .int, .value (.int .int n)⟩)]

theorem find?_pricedAs {name : String}
    (hkey : nameKey false name = nameKey false "price") (n : Int) :
    (pricedAs name n).find? name = (priced n).find? name := by
  have hpriced : (priced n).find? name = some ⟨"price", .int .int, .value (.int .int n)⟩ :=
    (Store.at?_holding {} (nameKey false "price") _ _).trans (if_pos hkey)
  have hspelled : (pricedAs name n).find? name = some ⟨"price", .int .int, .value (.int .int n)⟩ :=
    (Store.at?_holding { caseSensitive := true } (Text.ofString name) _ _).trans (if_pos rfl)
  rw [hpriced, hspelled]

/-- A text that starts its chains with one spelling of a price is compiled as if there were no
other. -/
theorem compile_pricedAs {c : Context} {o : Options} {text : Text} {name : String}
    (hkey : nameKey false name = nameKey false "price") (h : c.firstNames text = [name]) (n : Int) :
    (c.compile .bare (priced n) o text).toOption =
      (c.compile .bare (pricedAs name n) o text).toOption := by
  refine Context.compile_toOption_storing rfl fun x hx => ?_
  rw [h, List.mem_singleton] at hx
  rw [hx, Store.typeOf?, Store.typeOf?, find?_pricedAs hkey]

theorem compile_priced :
    (alike.compile .bare (priced 2) alike.options (Text.ofString "price in (2, 1)")).isOk =
      true := by
  obtain ⟨hnames, hspelled⟩ : alike.firstNames (Text.ofString "price in (2, 1)") = ["price"] ∧
      (alike.compile .bare (pricedAs "price" 2) alike.options
        (Text.ofString "price in (2, 1)")).toOption.isSome = true := by
    rw [Context.firstNames, Context.compile, Context.element, Context.parse, Grammar.parse_standing]
    decide +kernel
  rw [← isSome_toOption, compile_pricedAs rfl hnames]
  exact hspelled

/-- The span of no time. -/
def instantly : Element := .constant .timeSpan (.timeSpan 0) none

theorem overload?_likeness :
    Build.overload? (alike.scope .bare {} {}) .equal alike.operators [.timeSpan, .timeSpan] =
      .ok (some likeness) := by
  have hfit : Overload.fit .double (alike.scope .bare {} {}).score
    (Build.overloadCandidate .equal (likeness, 0))
      [.timeSpan, .timeSpan] = .yes (Overload.Scale.double.mean 0 2) false := rfl
  have hresolve := Overload.resolve_singleton hfit rfl
  have hthrough : Build.overloadThrough? (alike.scope .bare {} {}) .equal
    [Build.overloadCandidate .equal (likeness, 0)]
      [.timeSpan, .timeSpan] .timeSpan =
        .ok (some ⟨Build.overloadCandidate .equal (likeness, 0), 0,
          Overload.Scale.double.mean 0 2, false⟩) := by
    have hdeclared : (if Build.declaresOverloads .timeSpan then
        [Build.overloadCandidate .equal (likeness, 0)].filter fun c =>
          c.params.contains .timeSpan else []) =
          [Build.overloadCandidate .equal (likeness, 0)] := rfl
    simp only [Build.overloadThrough?, hdeclared, hresolve]
  show ([Ty.timeSpan].mapM (Build.overloadThrough? _ .equal
    [Build.overloadCandidate .equal (likeness, 0)] _) >>= _) = _
  simp only [List.mapM_cons, hthrough]
  rfl

/-- A span is looked for in a list with the overload. -/
theorem amongList_likeness : Build.amongList (alike.scope .bare {} {}) instantly [instantly] =
    .ok (.among instantly [.binary (.overload .equal likeness) (.int .int) (.duplicate .timeSpan)
      instantly]) := by
  have hany : Build.anyOverload? (alike.scope .bare {} {}) .equal [.timeSpan, .timeSpan] =
      .ok (some likeness) := by
    show (Build.overload? _ _ alike.operators _ >>= _) = _
    rw [overload?_likeness]
    rfl
  have hoverloaded : Build.overloadedBinary? (alike.scope .bare {} {}) .equal
    (.duplicate .timeSpan) instantly =
      .ok (some (.binary (.overload .equal likeness) (.int .int) (.duplicate .timeSpan)
        instantly)) := by
    show (Build.anyOverload? _ _ [.timeSpan, .timeSpan] >>= _) = _
    rw [hany]
    rfl
  have hcompare : Build.compare (alike.scope .bare {} {}) .equal (.duplicate .timeSpan) instantly =
      .ok (.binary (.overload .equal likeness) (.int .int) (.duplicate .timeSpan) instantly) := by
    show (Build.overloadedBinary? _ _ _ _ >>= _) = _
    rw [hoverloaded]
    rfl
  show ([instantly].mapM (fun item => Build.compare (alike.scope .bare {} {}) .equal
    (.duplicate .timeSpan) item) >>= _) = _
  simp only [List.mapM_cons, hcompare]
  rfl

end Likeness

/-- In any session, whatever steps come before and after a text is compiled: an expression has the
type that was declared for it, its values are of this type, and each step of its runs finds operands
of the types it asks for, unless it is a branch on what an overload of equality gave that is not
boolean. -/
theorem evaluate_type_safe {c₀ c : Context} {w w₁ w₂ : Workspace} {n m : Nat}
    {f : Options → Options} {text : Text}
    (honest : host.Honest) (hc₀ : c₀.Honest host) (hw : (create host c₀).Later w)
    (hc : w.contexts[n]? = some c)
    (hcompile : w.compile n f text = .ok (m, w₁)) (hlater : w₁.Later w₂) :
    ∃ e, w₂.expressions[m]? = some e ∧ (w₁.expressions[m]?).map (·.compiled) = some e.compiled ∧
      (∀ t, (f c.options).resultType = some t → e.compiled.type = t) ∧
      (∀ v w₃, w₂.evaluate m = (.ok v, w₃) → host.Fits e.compiled.type v) ∧
      ∀ depth tally i stack tally' x,
        e.compiled.program.Reaches (Instruction.perform (w₂.environment depth e)) tally
          i stack tally' →
        e.compiled.program.steps[i]? = some x →
        (¬x.Asserts host stack ↔ ∃ f t v rest wanted target, (.equal, f) ∈ c.operators.binary ∧
          f.signature.results.head? = some t ∧ t ≠ .bool ∧ host.Fits t v ∧ (∀ b, v ≠ .bool b) ∧
          x = .jumpIf wanted target ∧ stack = v :: rest) := by
  have hsound := (create_sound honest hc₀).later hw
  have hhost : w.host = host := hsound.1.host
  obtain ⟨hevolves, e₁, he₁, hruns₁, hresult⟩ := hsound.2.compile hc hcompile
  have hevolves' := hevolves.2.later hlater
  obtain ⟨e, he, hcompiled, hruns⟩ := hruns₁.kept hevolves'.1 he₁
  obtain ⟨x, hx, hprogram, htype⟩ := hruns.element
  have hsuits : ∀ depth, (w₂.environment depth e).Suits (c.scope w.host w.store (f c.options)) :=
    fun depth =>
    hruns.suits hevolves'.2 fun n tally tally' v hv => hevolves'.2.valueOf_genuine depth n hv
  refine ⟨e, he, by rw [he₁, hcompiled]; rfl, fun t ht => by rw [hcompiled]; exact hresult t ht,
    fun v w₃ hv => ?_, ?_⟩
  · have hrun : (w₂.valueOf (w₂.expressions.size + 1) m).run w₂.tally = (.ok v, w₃.tally) := by
      cases hrun : (w₂.valueOf (w₂.expressions.size + 1) m).run w₂.tally with
      | mk r tally =>
        simp only [evaluate, hrun] at hv
        cases hv
        rfl
    rw [valueOf_succ he, hprogram] at hrun
    rw [htype, ← hhost]
    exact (hx.gives hruns.honest (hsuits _) _ _ v hrun).1
  · intro depth tally i stack tally' step hreach hstep
    rw [hprogram] at hreach hstep
    constructor
    · intro hfails
      rw [← hhost] at hfails
      obtain ⟨g, t, v, rest, wanted, target, hg, ht, hne, rfl, rfl, hfits⟩ :=
        hx.asserts hruns.honest (hsuits depth) hreach hstep hfails
      refine ⟨g, t, v, rest, wanted, target, hg, ht, hne, hhost ▸ hfits, ?_, rfl, rfl⟩
      rintro b rfl
      exact hfails ⟨b, rest, rfl⟩
    · rintro ⟨g, t, v, rest, wanted, target, -, -, -, -, hv, rfl, rfl⟩ ⟨b, rest', hstack⟩
      exact hv b (List.cons.inj hstack).1

/-- The value of `price in (2, 1)` stays a boolean when the price changes. -/
theorem evaluate_price_type_safe : ∃ (w₁ w₂ : Workspace) (e : Expression),
    ({ create .bare alike with
      store := priced 2 } : Workspace).compile 0 id
      (Text.ofString "price in (2, 1)") = .ok (0, w₁) ∧
      w₁.Later w₂ ∧ w₂.store = priced 3 ∧ w₂.expressions[0]? = some e ∧
        ∀ v w₃, w₂.evaluate 0 = (.ok v, w₃) → Host.bare.Fits e.compiled.type v := by
  have hheld : ∀ n, Held.Genuine .bare (.value (.int .int n)) := fun _ => trivial
  have hdefine : (create .bare alike).store.define .bare "price" none (.value (.int .int 2)) =
    (.ok (), priced 2) := rfl
  cases htext : alike.compile .bare (priced 2) alike.options (Text.ofString "price in (2, 1)") with
  | error f =>
    have hok := compile_priced
    rw [htext] at hok
    cases hok
  | ok compiled =>
    let w₁ : Workspace := ⟨.bare, priced 2, #[alike, alike], #[⟨compiled, 1, .nil⟩], []⟩
    have hcompile : ({ create .bare alike with store := priced 2 } : Workspace).compile 0 id
        (Text.ofString "price in (2, 1)") = .ok (0, w₁) := by
      show (alike.compile .bare (priced 2) alike.options _ >>= _) = _
      rw [htext]
      rfl
    have hlater : w₁.Later { w₁ with store := priced 3 } :=
      .tail .refl (.set (hheld 3) (set_priced 2 3))
    obtain ⟨e, he, -, -, hvalue, -⟩ := evaluate_type_safe Host.bare_honest alike_honest
      (.tail .refl (.define (hheld 2) hdefine)) rfl hcompile hlater
    exact ⟨w₁, _, e, hcompile, hlater, rfl, he, hvalue⟩

/-- A test for membership can come to a branch on a number. -/
theorem membership_undecided : ∃ e p, Build.amongList (alike.scope .bare {} {}) instantly
    [instantly] = .ok e ∧
    e.program 16 = .ok p ∧ ∀ env tally, (runProgram env p).run tally =
      (.error (.broken none), tally) :=
  ⟨_, _, amongList_likeness, rfl, fun _ _ => rfl⟩

end Workspace

end Formulary
