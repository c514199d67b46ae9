import Formulary.Proofs.Session.Consistency

/-!
# Expressions apart from their contexts

Options that are set later, lexers that are rebuilt and imports and overloads that are added do not
reach an expression that was compiled before. There is one way through: variables are shared, and
options that change the case rule put them under other keys. An expression still finds the variables
that it spells as they were defined.
-/

namespace Formulary

open Relation

/-- Names that are the same under some case rule differ at most in case. -/
theorem nameKey_false_eq {caseSensitive : Bool} {a b : String}
    (h : nameKey caseSensitive a = nameKey caseSensitive b) :
    nameKey false a = nameKey false b := by
  cases caseSensitive with
  | false => exact h
  | true => exact congrArg Text.fold h

namespace Store

variable {host : Host} {s s' : Store} {name : String}

/-- What the variable of a name holds. -/
def held? (s : Store) (name : String) : Option Held := (s.find? name).map (·.held)

/-- A name that is spelled like the variable it means: no variable differs from it only in case. -/
def Spells (s : Store) (name : String) : Prop :=
  ∀ e ∈ s.entries, nameKey false e.2.name = nameKey false name → e.2.name = name

section CaseRule

/-- Of the variables that come under one key, the last one stays. -/
theorem find?_rekeyed (caseSensitive : Bool) (k : Text) (entries : List (Text × Variable)) :
    ((rekeyed caseSensitive entries).find? (·.1 == k)).map (·.2) =
      (entries.reverse.find? fun e => nameKey caseSensitive e.2.name == k).map (·.2) := by
  have hfold : ∀ rest es : List (Text × Variable),
      ((rest.foldl (fun es e => put (nameKey caseSensitive e.2.name) e.2 es) es).find?
        (·.1 == k)).map (·.2) =
        ((rest.reverse.find? fun e => nameKey caseSensitive e.2.name == k).map (·.2)).or
          ((es.find? (·.1 == k)).map (·.2)) := by
    intro rest
    induction rest with
    | nil => exact fun es => rfl
    | cons e rest ih =>
      intro es
      rw [List.foldl_cons, ih, List.reverse_cons, List.find?_append, find?_put]
      by_cases h : k = nameKey caseSensitive e.2.name
      · cases hrest : rest.reverse.find? fun e => nameKey caseSensitive e.2.name == k <;> simp [← h]
      · simp [h, Ne.symm h]
  rw [rekeyed, hfold, List.find?_nil, Option.map_none, Option.or_none]

/-- A name that is spelled like its variable means the variable of this very name. -/
theorem Consistent.find?_spelled (h : s.Consistent host) (hname : s.Spells name) {v : Variable} :
    s.find? name = some v ↔ v.name = name ∧ ∃ e ∈ s.entries, e.2 = v := by
  constructor
  · intro hfind
    have hmem := mem_of_at? hfind
    exact ⟨hname _ hmem (nameKey_false_eq (h.key_of_find? hfind).symm), _, hmem, rfl⟩
  · rintro ⟨rfl, e, he, rfl⟩
    have hkey : (e.1 == s.key e.2.name) = true := beq_iff_eq.2 (h.keyed e he)
    cases hfind : s.find? e.2.name with
    | none =>
      rw [find?_eq_at?, at?, Option.map_eq_none_iff, List.find?_eq_none] at hfind
      exact absurd hkey (hfind e he)
    | some v =>
      have heq := h.eq_of_key he (mem_of_at? hfind) (h.keyed e he)
      rw [heq]

theorem Spells.withCaseRule (hname : s.Spells name) (caseSensitive : Bool) :
    (s.withCaseRule caseSensitive).Spells name := by
  intro e he hkey
  obtain ⟨e', he', heq⟩ := Consistent.exists_of_mem_withCaseRule he
  rw [← heq] at hkey ⊢
  exact hname e' he' hkey

/-- A variable that no other one differs from only in case is not lost under another case rule. -/
theorem Consistent.mem_withCaseRule (h : s.Consistent host) (caseSensitive : Bool)
    {e : Text × Variable} (he : e ∈ s.entries) (hname : s.Spells e.2.name) :
    ∃ e' ∈ (s.withCaseRule caseSensitive).entries, e'.2 = e.2 := by
  unfold Store.withCaseRule
  split
  · exact ⟨e, he, rfl⟩
  · let k := nameKey caseSensitive e.2.name
    have hperm := s.ranging.perm s.entries
    obtain ⟨x, hx⟩ : ∃ x,
        (s.ranging.order s.entries).reverse.find? (fun x =>
          nameKey caseSensitive x.2.name == k) = some x := by
      rw [← Option.isSome_iff_exists, List.find?_isSome]
      exact ⟨e, List.mem_reverse.2 (hperm.mem_iff.2 he), beq_self_eq_true k⟩
    have hkey : nameKey caseSensitive x.2.name = k := by simpa using List.find?_some hx
    have hmem : x ∈ s.entries := hperm.mem_iff.1 (List.mem_reverse.1 (List.mem_of_find?_eq_some hx))
    have hsame : x = e := h.eq_of_name he hmem (hname x hmem (nameKey_false_eq hkey))
    have hlast := find?_rekeyed caseSensitive k (s.ranging.order s.entries)
    rw [hx, hsame] at hlast
    exact ⟨_, mem_of_at? (s := { s with caseSensitive := caseSensitive, entries := _ }) hlast, rfl⟩

/-- Under another case rule a name still means the variable that it is spelled like. -/
theorem Consistent.find?_withCaseRule (h : s.Consistent host) (hname : s.Spells name)
    (caseSensitive : Bool) :
    (s.withCaseRule caseSensitive).find? name = s.find? name := by
  refine Option.ext fun v => ?_
  rw [(h.withCaseRule caseSensitive).find?_spelled (hname.withCaseRule caseSensitive),
    h.find?_spelled hname]
  refine and_congr_right fun hv => ⟨?_, ?_⟩
  · rintro ⟨e, he, rfl⟩
    exact exists_of_mem_withCaseRule he
  · rintro ⟨e, he, rfl⟩
    exact h.mem_withCaseRule caseSensitive he (hv ▸ hname)

/-- A store under several case rules, one after the other. -/
def withCaseRules (s : Store) (rules : List Bool) : Store := rules.foldl withCaseRule s

theorem hooks_withCaseRules (s : Store) (rules : List Bool) :
    (s.withCaseRules rules).hooks = s.hooks := by
  induction rules generalizing s with
  | nil => rfl
  | cons caseSensitive rules ih =>
    refine (ih (s.withCaseRule caseSensitive)).trans ?_
    unfold withCaseRule
    split <;> rfl

theorem Consistent.find?_withCaseRules (h : s.Consistent host) (hname : s.Spells name)
    (rules : List Bool) :
    (s.withCaseRules rules).find? name = s.find? name := by
  induction rules generalizing s with
  | nil => rfl
  | cons caseSensitive rules ih =>
    exact (ih (h.withCaseRule caseSensitive) (hname.withCaseRule caseSensitive)).trans
      (h.find?_withCaseRule hname caseSensitive)

end CaseRule

/-- A variable is loaded by what it holds. -/
theorem load_held {evaluate evaluate' : Nat → Eval Value} (hhooks : s'.hooks = s.hooks)
    (hheld : s'.held? name = s.held? name)
    (hevaluate : ∀ m t, s.held? name = some (.formula m t) → evaluate' m = evaluate m) (t : Ty) :
    s'.load host evaluate' name t = s.load host evaluate name t := by
  unfold load
  rw [hhooks]
  unfold held? at hheld hevaluate
  cases hfind : s.find? name with
  | none =>
    rw [hfind, Option.map_none, Option.map_eq_none_iff] at hheld
    rw [hheld]
  | some v =>
    rw [hfind, Option.map_some, Option.map_eq_some_iff] at hheld
    obtain ⟨v', hv', hsame⟩ := hheld
    rw [hfind, Option.map_some] at hevaluate
    simp only [hv', hsame]
    cases hv : v.held with
    | value x => rfl
    | formula m u => simp only [hevaluate m u (by rw [hv])]

end Store

inductive Adjustment where
  | options (n : Nat) (f : Options → Options)
  | lexer (n : Nat)
  | imports (n : Nat) (path : List String) (additions : List (Except String Member))
  | operators (n : Nat) (f : Operators → Except String Operators)

namespace Workspace

/-- One step. What is refused leaves the workspace as it is. -/
def adjust (w : Workspace) : Adjustment → Workspace
  | .options n f => w.setOptions n f
  | .lexer n => (w.rebuildLexer n).toOption.getD w
  | .imports n path additions => (w.importInto n path additions).1
  | .operators n f => (w.register n f).toOption.getD w

def adjusted (w : Workspace) (steps : List Adjustment) : Workspace := steps.foldl adjust w

/-- Whether no options that are set change the case rule of their context. -/
def KeepsRule (w : Workspace) : List Adjustment → Prop
  | [] => True
  | step :: steps =>
    (∀ n f c, step = .options n f → w.contexts[n]? = some c →
      (f c.options).caseSensitive = c.options.caseSensitive) ∧
      (w.adjust step).KeepsRule steps

/-- The names that an expression reads, in its own text or in those of formulas that it comes
upon. -/
def Reads (w : Workspace) (n : Nat) (name : String) : Prop :=
  ∃ m e, ReflTransGen w.Calls n m ∧ w.expressions[m]? = some e ∧ name ∈ e.compiled.names

structure Parallels (w w' : Workspace) : Prop where
  host : w'.host = w.host
  expressions : w'.expressions = w.expressions
  store : ∃ rules, w'.store = w.store.withCaseRules rules

section Steps

variable {w w' w'' : Workspace}

theorem Parallels.refl (w : Workspace) : w.Parallels w := ⟨rfl, rfl, [], rfl⟩

theorem Parallels.trans (h : w.Parallels w') (h' : w'.Parallels w'') : w.Parallels w'' := by
  obtain ⟨rules, hstore⟩ := h.store
  obtain ⟨rules', hstore'⟩ := h'.store
  refine ⟨h'.host.trans h.host, h'.expressions.trans h.expressions, rules ++ rules', ?_⟩
  rw [hstore', hstore, Store.withCaseRules, Store.withCaseRules, Store.withCaseRules,
    List.foldl_append]

/-- What a step does: options are set, or some context is changed in another way, or nothing
happens. -/
theorem adjust_cases (w : Workspace) (step : Adjustment) : w.adjust step = w ∨
    (∃ n f, w.adjust step = w.changeContext n f) ∨
    ∃ n f c, step = .options n f ∧ w.contexts[n]? = some c ∧
      (f c.options).caseSensitive ≠ c.options.caseSensitive ∧
      w.adjust step = { w.changeContext n (fun c' => { c' with options := f c.options }) with
        store := w.store.withCaseRule (f c.options).caseSensitive } := by
  cases step with
  | options n f =>
    simp only [adjust, setOptions]
    split
    · exact .inl rfl
    · rename_i c hc
      by_cases hrule : (f c.options).caseSensitive = c.options.caseSensitive
      · exact .inr (.inl ⟨n, fun c' => { c' with options := f c.options },
          by simp [hrule, changeContext]⟩)
      · exact .inr (.inr ⟨n, f, c, rfl, hc, hrule, by simp [hrule]⟩)
  | lexer n =>
    simp only [adjust, rebuildLexer]
    split
    · exact .inl rfl
    · rename_i c hc
      cases c.withLexer with
      | error fault => exact .inl rfl
      | ok c' => exact .inr (.inl ⟨n, _, rfl⟩)
  | imports n path additions =>
    simp only [adjust, importInto]
    split
    · exact .inl rfl
    · exact .inr (.inl ⟨n, _, rfl⟩)
  | operators n f =>
    simp only [adjust, register]
    split
    · exact .inl rfl
    · rename_i c hc
      cases f c.operators with
      | error fault => exact .inl rfl
      | ok ops => exact .inr (.inl ⟨n, _, rfl⟩)

/-- One step leaves expressions as they are, and variables too but for their case rule. -/
theorem parallels_adjust (w : Workspace) (step : Adjustment) : w.Parallels (w.adjust step) := by
  obtain h | ⟨n, f, h⟩ | ⟨n, f, c, -, -, -, h⟩ := adjust_cases w step
  · rw [h]
    exact .refl w
  · rw [h]
    exact ⟨rfl, rfl, [], rfl⟩
  · rw [h]
    exact ⟨rfl, rfl, [(f c.options).caseSensitive], rfl⟩

/-- So do several steps. -/
theorem parallels_adjusted (w : Workspace) (steps : List Adjustment) :
    w.Parallels (w.adjusted steps) := by
  induction steps generalizing w with
  | nil => exact .refl w
  | cons step steps ih => exact (parallels_adjust w step).trans (ih (w.adjust step))

/-- Variables are as they were where no case rule is changed. -/
theorem store_adjusted {steps : List Adjustment} (h : w.KeepsRule steps) :
    (w.adjusted steps).store = w.store := by
  induction steps generalizing w with
  | nil => rfl
  | cons step steps ih =>
    refine (ih h.2).trans ?_
    obtain hstep | ⟨n, f, hstep⟩ | ⟨n, f, c, rfl, hc, hrule, -⟩ := adjust_cases w step
    · rw [hstep]
    · rw [hstep]
      rfl
    · exact absurd (h.1 n f c rfl hc) hrule

/-- The count of calls has no part in a step. -/
theorem adjust_tally (w : Workspace) (tally : Tally) (step : Adjustment) :
    ({ w with tally := tally } : Workspace).adjust step = { w.adjust step with
      tally := tally } := by
  cases step with
  | options n f =>
    simp only [adjust, setOptions]
    split <;> rfl
  | lexer n =>
    simp only [adjust, rebuildLexer]
    split
    · rfl
    · rename_i c hc
      cases c.withLexer <;> rfl
  | imports n path additions =>
    simp only [adjust, importInto]
    split <;> rfl
  | operators n f =>
    simp only [adjust, register]
    split
    · rfl
    · rename_i c hc
      cases f c.operators <;> rfl

theorem adjusted_tally (w : Workspace) (tally : Tally) (steps : List Adjustment) :
    ({ w with tally := tally } : Workspace).adjusted steps = { w.adjusted steps with
      tally := tally } := by
  induction steps generalizing w with
  | nil => rfl
  | cons step steps ih =>
    rw [adjusted, List.foldl_cons, adjust_tally]
    exact ih (w.adjust step)

end Steps

section Values

variable {w w' : Workspace} {n : Nat}

/-- An expression has the same value in two workspaces where the names that it reads are loaded
alike. -/
theorem valueOf_of_load {e : Expression} {depth : Nat} (he : w.expressions[n]? = some e)
    (he' : w'.expressions[n]? = some e)
    (hhost : w'.host = w.host) (hhooks : w'.store.hooks = w.store.hooks)
    (hload : ∀ name ∈ e.compiled.names, ∀ t,
      w'.store.load w.host (w'.valueOf depth) name t = (w.environment depth e).load name t) :
    w'.valueOf (depth + 1) n = w.valueOf (depth + 1) n := by
  have hdemand : w'.store.demand w.host = w.store.demand w.host := by
    funext name t args
    rw [Store.demand, Store.demand, hhooks]
  have henvironment : w'.environment depth e =
      { w.environment depth e with load := w'.store.load w.host (w'.valueOf depth) } := by
    simp only [environment, hhost, hdemand]
  rw [valueOf_succ he, valueOf_succ he', henvironment]
  exact runProgram_congr _ hload

/-- An expression that reads no formulas evaluates to the same where the variables that it reads
hold the same. -/
theorem evaluate_storing {w : Workspace} {n : Nat} {e : Expression} {store : Store}
    (he : w.expressions[n]? = some e)
    (hhooks : store.hooks = w.store.hooks) (hheld : ∀ name ∈ e.compiled.names,
      store.held? name = w.store.held? name)
    (hvalues : ∀ name m t, w.store.held? name ≠ some (.formula m t)) :
    (({ w with store := store } : Workspace).evaluate n).1 = (w.evaluate n).1 := by
  have hvalue : ({ w with store := store } : Workspace).valueOf (w.expressions.size + 1) n =
      w.valueOf (w.expressions.size + 1) n :=
    valueOf_of_load he he rfl hhooks fun name hname t =>
      Store.load_held hhooks (hheld name hname) (fun m u hm => absurd hm (hvalues name m u)) t
  exact congrArg (fun v => (v.run w.tally).1) hvalue

/-- An expression has the value it had where the variables that it reads hold what they held. -/
theorem Parallels.valueOf_eq (h : w.Parallels w')
    (hheld : ∀ name, w.Reads n name → w'.store.held? name = w.store.held? name) (depth : Nat) :
    w'.valueOf depth n = w.valueOf depth n := by
  induction depth generalizing n with
  | zero => rfl
  | succ depth ih =>
    obtain ⟨rules, hrules⟩ := h.store
    have hhooks : w'.store.hooks = w.store.hooks := by rw [hrules, Store.hooks_withCaseRules]
    cases he : w.expressions[n]? with
    | none => rw [valueOf_eq_breakdown he, valueOf_eq_breakdown (h.expressions ▸ he)]
    | some e =>
      refine valueOf_of_load he (h.expressions ▸ he) h.host hhooks fun name hname t => ?_
      refine Store.load_held hhooks (hheld name ⟨n, e, .refl, he, hname⟩) (fun m u hm => ih ?_) t
      -- A formula that is read reads on behalf of the expression.
      obtain ⟨v, hfind, hv⟩ := Option.map_eq_some_iff.1 hm
      rintro other ⟨m', e', hcalls, he', hother⟩
      exact hheld other ⟨m', e', .head ⟨e, name, v, u, he, hname, hfind, hv⟩ hcalls, he', hother⟩

/-- Steps that leave what an expression reads as it is make no difference to its evaluation, now or
later. -/
theorem evaluate_of_held {steps : List Adjustment}
    (h : ∀ name, w.Reads n name → (w.adjusted steps).store.held? name = w.store.held? name) :
    (w.adjusted steps).evaluate n = ((w.evaluate n).1, (w.evaluate n).2.adjusted steps) := by
  have hparallels := parallels_adjusted w steps
  have htally : (w.adjusted steps).tally = w.tally :=
    congrArg (·.tally) (adjusted_tally w w.tally steps)
  have hevaluate : ∀ u : Workspace, u.evaluate n =
      (((u.valueOf (u.expressions.size + 1) n).run u.tally).1,
        { u with tally := ((u.valueOf (u.expressions.size + 1) n).run u.tally).2 }) := fun _ => rfl
  have hrun : ((w.adjusted steps).valueOf ((w.adjusted steps).expressions.size + 1) n).run
    (w.adjusted steps).tally =
      (w.valueOf (w.expressions.size + 1) n).run w.tally := by
    rw [hparallels.valueOf_eq h, hparallels.expressions, htally]
  rw [hevaluate (w.adjusted steps), hrun, hevaluate w]
  exact Prod.ext rfl (adjusted_tally w _ steps).symm

end Values

section Recased

/-- Options under which the case of names matters. -/
def sensitive (o : Options) : Options := { o with caseSensitive := true }

/-- A price and one more read a price. -/
theorem reads_raising {x : Compiled} (hnames : x.names = ["price"]) (name : String) :
    (raising x).Reads 0 name ↔ name = "price" := by
  constructor
  · rintro ⟨m, e, -, he, hname⟩
    have hmem : e ∈ #[(⟨x, 1, .nil⟩ : Expression)] := Array.mem_of_getElem? he
    rw [Array.mem_singleton] at hmem
    rw [hmem, hnames] at hname
    exact List.mem_singleton.1 hname
  · rintro rfl
    exact ⟨0, ⟨x, 1, .nil⟩, .refl, rfl, hnames ▸ List.mem_singleton_self _⟩

theorem priced_consistent : (priced 2).Consistent .bare :=
  (Store.Consistent.empty false {}).after (.define "price" none (.value (.int .int 2)))

/-- A price is spelled as it is. -/
theorem priced_spells (n : Int) : (priced n).Spells "price" := by
  intro e he _
  obtain rfl := List.mem_singleton.1 he
  rfl

/-- The price is in capitals. -/
def capital : Text := Text.ofString "PRICE + 1"

theorem key_capital : nameKey false "PRICE" = nameKey false "price" := by
  rw [nameKey_false, nameKey_false]
  decide +kernel

/-- Whether a value is three before the case of names begins to matter, and a variable is missed
after it. -/
def losesPrice (before after : Except Failure Value) : Bool :=
  match before, after with
  | .ok (.int .int n), .error (.detailed .undefinedVariable name) => n == 3 && name == "PRICE"
  | _, _ => false

theorem of_losesPrice {before after : Except Failure Value} (h : losesPrice before after = true) :
    before = .ok (.int .int 3) ∧ after = .error (.detailed .undefinedVariable "PRICE") := by
  unfold losesPrice at h
  split at h
  · obtain ⟨rfl, rfl⟩ := by simpa using h
    exact ⟨rfl, rfl⟩
  · cases h

/-- A price in one spelling is evaluated as if there were no other. -/
theorem evaluate_pricedAs {x : Compiled} {name : String}
    (hkey : nameKey false name = nameKey false "price") (hnames : x.names = [name]) :
    (({ raising x with
      store := pricedAs name 2 } : Workspace).evaluate 0).1 = ((raising x).evaluate 0).1 := by
  refine evaluate_storing (w := raising x) (e := ⟨x, 1, .nil⟩) rfl rfl (fun other hother => ?_)
    fun other m t hformula => ?_
  · rw [hnames, List.mem_singleton] at hother
    rw [hother, Store.held?, Store.held?]
    exact congrArg _ (find?_pricedAs hkey 2)
  · obtain ⟨v, hfind, hv⟩ := Option.map_eq_some_iff.1 hformula
    obtain ⟨-, rfl⟩ := Prod.mk.inj (List.mem_singleton.1 (Store.mem_of_at? hfind))
    cases hv

theorem compile_capital : ∃ x, Context.usual.compile .bare (priced 2) Context.usual.options
    capital = .ok x ∧
    losesPrice ((raising x).evaluate 0).1 (((raising x).adjusted [.options 0 sensitive]).evaluate
      0).1 = true := by
  obtain ⟨hfirst, hloses⟩ : Context.usual.firstNames capital = ["PRICE"] ∧
      ((Context.usual.compile .bare (pricedAs "PRICE" 2) Context.usual.options capital).toOption.any
        fun x =>
        x.names == ["PRICE"] && losesPrice (({ raising x with
          store := pricedAs "PRICE" 2 } : Workspace).evaluate 0).1
          (((raising x).adjusted [.options 0 sensitive]).evaluate 0).1) = true := by
    rw [Context.firstNames, Context.compile, Context.element, Context.parse, Grammar.parse_standing]
    decide +kernel
  rw [← compile_pricedAs key_capital hfirst] at hloses
  obtain ⟨x, hx, hloses⟩ := exists_ok_of_any hloses
  obtain ⟨hnames, hloses⟩ := Bool.and_eq_true_iff.1 hloses
  rw [evaluate_pricedAs key_capital (eq_of_beq hnames)] at hloses
  exact ⟨x, hx, hloses⟩

end Recased

/-- However the options, lexers, imports and overloads of a workspace are changed, an expression
that was compiled before evaluates as it would have without the changes, if the variables that it
reads hold what they held. So it does if no case rule is changed, and also if the variables that it
reads are spelled as they were defined, each in letters that no other variable has in another
case. -/
theorem evaluate_adjusted (w : Workspace) (n : Nat) (steps : List Adjustment)
    (h : (∀ name, w.Reads n name → (w.adjusted steps).store.held? name = w.store.held? name) ∨
      w.KeepsRule steps ∨
      w.store.Consistent w.host ∧ ∀ name, w.Reads n name → w.store.Spells name) :
    (w.adjusted steps).evaluate n = ((w.evaluate n).1, (w.evaluate n).2.adjusted steps) := by
  refine evaluate_of_held ?_
  rcases h with hheld | hrule | ⟨hstore, hspells⟩
  · exact hheld
  · intro name _
    rw [store_adjusted hrule]
  · intro name hname
    obtain ⟨rules, hrules⟩ := (parallels_adjusted w steps).store
    rw [hrules, Store.held?, Store.held?, hstore.find?_withCaseRules (hspells name hname)]

/-- A price that is spelled as it was defined is found when the case of names begins to matter. -/
theorem evaluate_raised_adjusted : ∃ x w, ({ create .bare .usual with
    store := priced 2 } : Workspace).compile 0 id raised =
      .ok (0, w) ∧ w.expressions[0]? = some ⟨x, 1, .nil⟩ ∧ w.Reads 0 "price" ∧
    (w.adjusted [.options 0 sensitive, .lexer 0]).store.caseSensitive = true ∧
    (w.adjusted [.options 0 sensitive, .lexer 0]).evaluate 0 =
      ((w.evaluate 0).1, (w.evaluate 0).2.adjusted [.options 0 sensitive, .lexer 0]) := by
  obtain ⟨x, hx, -, hnames⟩ := compile_raised
  have hspells : ∀ name, (raising x).Reads 0 name → (raising x).store.Spells name := by
    intro name hname
    rw [(reads_raising hnames name).1 hname]
    exact priced_spells 2
  refine ⟨x, raising x, compile_raising hx, rfl, (reads_raising hnames _).2 rfl, rfl, ?_⟩
  exact evaluate_adjusted (raising x) 0 _ (.inr (.inr ⟨priced_consistent, hspells⟩))

/-- A price in capitals is lost when the case of names begins to matter. -/
theorem evaluate_capital_lost : ∃ w, ({ create .bare .usual with
    store := priced 2 } : Workspace).compile 0 id capital =
      .ok (0, w) ∧ (w.evaluate 0).1 = .ok (.int .int 3) ∧
    ((w.adjusted [.options 0 sensitive]).evaluate 0).1 =
      .error (.detailed .undefinedVariable "PRICE") := by
  obtain ⟨x, hx, hloses⟩ := compile_capital
  exact ⟨raising x, compile_raising hx, of_losesPrice hloses⟩

end Workspace

end Formulary
