import Formulary.Proofs.Build.Named
import Formulary.Proofs.Session.Cloning
import Formulary.Proofs.Session.Exactness

/-!
# The names that a text depends on

What a text is compiled to and what it evaluates to depends on no variables but those of the names
that are listed for it: those that its chains start with, unless they are imported namespaces or
types. Everything else in a store can be taken away or replaced.
-/

namespace Formulary

namespace Context

variable {c : Context} {text : Text}

/-- Of names that are the same under a case rule, one stays unless one was seen. -/
theorem exists_mem_distinct {caseSensitive : Bool} {seen : List Text}
    {names : List String} {name : String}
    (h : name ∈ names) : nameKey caseSensitive name ∈ seen ∨
      ∃ n ∈ distinct caseSensitive seen names,
        nameKey caseSensitive n = nameKey caseSensitive name := by
  fun_induction distinct caseSensitive seen names with
  | case1 => cases h
  | case2 seen first rest key hseen ih =>
    rcases List.mem_cons.1 h with rfl | h
    · exact .inl (List.contains_iff_mem.1 hseen)
    · exact ih h
  | case3 seen first rest key hnew ih =>
    rcases List.mem_cons.1 h with rfl | h
    · exact .inr ⟨name, List.mem_cons_self, rfl⟩
    · rcases ih h with hmem | ⟨n, hn, hkey⟩
      · rcases List.mem_cons.1 hmem with hkey | hmem
        · exact .inr ⟨first, List.mem_cons_self, hkey.symm⟩
        · exact .inl hmem
      · exact .inr ⟨n, List.mem_cons_of_mem _ hn, hkey⟩

/-- A name that a chain of a text starts with is listed, in some case, or is an imported namespace
or type. -/
theorem exists_identifier {names : List String} {name : String}
    (hnames : c.identifiers { caseSensitive := c.options.caseSensitive } text = .ok names)
    (h : name ∈ c.firstNames text) :
    c.isImportedScope name = true ∨
      ∃ n ∈ names, nameKey c.options.caseSensitive n = nameKey c.options.caseSensitive name := by
  obtain ⟨tree, htree, hnames⟩ := bind_eq_ok.1 hnames
  cases hnames
  rw [firstNames, htree] at h
  by_cases hscope : c.isImportedScope name = true
  · exact .inl hscope
  · have hunknown : name ∈ (tree.firstNames.map Build.identifier).filter fun n =>
        !({ caseSensitive := c.options.caseSensitive } : Store).contains n &&
          !c.isImportedScope n := by
      refine List.mem_filter.2 ⟨h, ?_⟩
      simp [Store.contains, Store.find?, hscope]
    exact .inr ((exists_mem_distinct hunknown).resolve_left List.not_mem_nil)

theorem identifiers_of_parse {tree : Grammar.Tree} (h : c.parse text = .ok tree) :
    ∃ names, c.identifiers { caseSensitive := c.options.caseSensitive } text = .ok names :=
  ⟨_, by rw [identifiers, h]; rfl⟩

theorem exists_identifiers {name : String} (h : name ∈ c.firstNames text) :
    ∃ names, c.identifiers { caseSensitive := c.options.caseSensitive } text = .ok names := by
  unfold firstNames at h
  split at h
  · exact identifiers_of_parse ‹_›
  · cases h

end Context

namespace Store

/-- A store under the case rule of a context, without hooks, of values alone, none of which has the
name of an imported namespace or type. -/
structure Detached (c : Context) (s : Store) : Prop where
  rule : s.caseSensitive = c.options.caseSensitive
  hooks : s.hooks = {}
  scopes : ∀ name, c.isImportedScope name = true → s.find? name = none
  values : ∀ e ∈ s.entries, ∃ v, e.2.held = .value v

def narrowed (s : Store) (names : List String) : Store :=
  { s with entries := s.entries.filter fun e => (names.map s.key).contains e.1 }

variable {s s' : Store} {c : Context} {text : Text} {names : List String} {name : String}

theorem find?_narrowed (s : Store) (names : List String) (name : String) :
    (s.narrowed names).find? name = if s.key name ∈ names.map s.key then
      s.find? name else none := by
  have hkey : (s.narrowed names).key name = s.key name := rfl
  rw [find?, find?, hkey, narrowed, List.find?_filter]
  split
  · rename_i h
    have hsame : ∀ e : Text × Variable, decide
      ((names.map s.key).contains e.1 = true ∧ (e.1 == s.key name) = true) =
        (e.1 == s.key name) := by
      intro e
      by_cases he : e.1 = s.key name
      · simpa [he] using h
      · simp [he]
    simp only [hsame]
  · rename_i h
    rw [Option.map_eq_none_iff, List.find?_eq_none]
    rintro e -
    simp only [decide_eq_true_eq, not_and, beq_iff_eq, List.contains_iff_mem]
    rintro hmem hkey
    exact h (hkey ▸ hmem)

/-- A name that is left in a narrowed store is, under the case rule, one of those that were to be
left. -/
theorem exists_of_find?_narrowed (h : ((s.narrowed names).find? name).isSome = true) :
    ∃ n ∈ names, s.key n = s.key name := by
  rw [find?_narrowed] at h
  split at h
  · rename_i hmem
    exact List.mem_map.1 hmem
  · cases h

/-- For the names that the chains of a text start with, nothing is lost in a store that is narrowed
to the listed ones. -/
theorem Detached.find?_narrowed (h : s.Detached c)
    (hnames : c.identifiers { caseSensitive := c.options.caseSensitive } text = .ok names)
    (hname : name ∈ c.firstNames text) : (s.narrowed names).find? name = s.find? name := by
  rw [Store.find?_narrowed]
  split
  · rfl
  · rename_i hnot
    rcases c.exists_identifier hnames hname with hscope | ⟨n, hn, hkey⟩
    · exact (h.scopes name hscope).symm
    · rw [← h.rule] at hkey
      exact absurd (List.mem_map.2 ⟨n, hn, hkey⟩) hnot

end Store

/-- A variable of a store. -/
def Element.Known (store : Store) : Element → Prop
  | .variable name _ => (store.find? name).isSome = true
  | _ => True

theorem Compiled.exists_of_mem_names {x : Compiled} {name : String} (h : name ∈ x.names) :
    ∃ t, .act (.variable name t) ∈ x.program.steps := by
  obtain ⟨step, hstep, hname⟩ := List.mem_filterMap.1 h
  unfold Machine.Step.variable? at hname
  split at hname
  · rename_i t
    cases hname
    exact ⟨t, Array.mem_toList_iff.1 hstep⟩
  · cases hname

namespace Build

/-- Without hooks, names bring in only variables of the store. -/
theorem named_known {s : Scope} (hhooks : s.store.hooks = {}) :
    Named s (Element.All (Element.Known s.store)) where
  closed := Element.closed_all fun e he => by
    cases e with
    | «variable» name t => cases he
    | _ => trivial
  read hr _ _ := Element.all_iff.2 ⟨trivial, by simpa [Element.children] using hr⟩
  invoke hr _ _ hargs := Element.all_iff.2 ⟨trivial, by simpa [Element.children] using ⟨hr, hargs⟩⟩
  load {name t} h := by
    refine Element.all_iff.2 ⟨?_, fun _ hc => by cases hc⟩
    rw [Store.suppliedType?, hhooks, Option.bind_none, Option.or_none, Store.typeOf?] at h
    obtain ⟨v, hv, -⟩ := Option.map_eq_some_iff.1 h
    exact Option.isSome_iff_exists.2 ⟨v, hv⟩
  demand h hargs := Element.all_iff.2 ⟨trivial, hargs⟩

end Build

namespace Context

variable {c : Context} {host : Host} {store : Store} {o : Options} {text : Text}

/-- Without hooks, a program reads only variables that are defined when it is compiled. -/
theorem find?_of_mem_names (hhooks : store.hooks = {}) {x : Compiled}
    (h : c.compile host store o text = .ok x)
    {name : String} (hname : name ∈ x.names) : (store.find? name).isSome = true := by
  obtain ⟨root, hroot, hprogram, -⟩ := compile_eq_ok h
  obtain ⟨tree, inner, -, hinner, himplicit⟩ := element_eq_ok hroot
  have named := Build.named_known (s := c.scope host store o) hhooks
  have hknown := Build.implicit_ensures named.closed (named.element hinner) root himplicit
  obtain ⟨t, hstep⟩ := Compiled.exists_of_mem_names hname
  obtain ⟨e, he, hact⟩ := Element.exists_of_act hprogram hstep
  have he := hknown e he
  cases e with
  | «variable» n u =>
    cases hact
    exact he
  | convert _ how => cases how <;> cases hact
  | _ => cases hact

end Context

namespace Store

variable {s s' : Store} {c : Context} {text : Text} {names : List String} {name : String}

/-- Two stores that agree on some names: on what is defined, its type and what it holds. -/
def Agree (names : List String) (s s' : Store) : Prop :=
  ∀ name ∈ names, s'.typeOf? name = s.typeOf? name ∧ s'.held? name = s.held? name

/-- Stores under one case rule agree on names that they agree on in another case. -/
theorem Agree.of_key (h : Agree names s s') (hrule : s'.caseSensitive = s.caseSensitive)
    {n : String} (hn : n ∈ names)
    (hkey : s.key n = s.key name) : s'.typeOf? name = s.typeOf? name ∧
    s'.held? name = s.held? name := by
  have hfind : s.find? n = s.find? name := by rw [find?_eq_at?, find?_eq_at?, hkey]
  have hfind' : s'.find? n = s'.find? name := by
    have hkey' : s'.key n = s'.key name := by
      rw [key, key, hrule]
      exact hkey
    rw [find?_eq_at?, find?_eq_at?, hkey']
  have hagree := h n hn
  rwa [typeOf?, typeOf?, held?, held?, hfind, hfind'] at hagree

section Detached

variable (h : s.Detached c) (h' : s'.Detached c)
  (hnames : c.identifiers { caseSensitive := c.options.caseSensitive } text = .ok names)
  (hagree : Agree names s s')

include h h' hnames hagree

/-- Detached stores that agree on the listed names have variables of the same types for all that
chains start with. -/
theorem Detached.typeOf?_eq (hname : name ∈ c.firstNames text) :
    s'.typeOf? name = s.typeOf? name := by
  rcases c.exists_identifier hnames hname with hscope | ⟨n, hn, hkey⟩
  · rw [typeOf?, typeOf?, h.scopes name hscope, h'.scopes name hscope]
  · rw [← h.rule] at hkey
    exact (hagree.of_key (h'.rule.trans h.rule.symm) hn hkey).1

/-- They hold the same for all that a program of the text reads. -/
theorem Detached.held?_eq {host : Host} {o : Options} {x : Compiled}
    (hx : c.compile host s o text = .ok x)
    (hname : name ∈ x.names) : s'.held? name = s.held? name := by
  -- The program is that of the text in a store with nothing but the listed variables, and reads
  -- none but these.
  have hsame : (c.compile host s o text).mapError Failure.wordless =
      (c.compile host (s.narrowed names) o text).mapError Failure.wordless := by
    refine Context.compile_storing rfl fun n hn => ?_
    rw [typeOf?, typeOf?, h.find?_narrowed hnames hn]
  have hnarrow : c.compile host (s.narrowed names) o text = .ok x :=
    mapError_eq_ok.1 (hsame.symm.trans (congrArg _ hx))
  have hhooks : (s.narrowed names).hooks = {} := h.hooks
  obtain ⟨n, hn, hkey⟩ := exists_of_find?_narrowed (Context.find?_of_mem_names hhooks hnarrow hname)
  exact (hagree.of_key (h'.rule.trans h.rule.symm) hn hkey).2

end Detached

theorem Detached.eq_value (h : s.Detached c) {held : Held} (hheld : s.held? name = some held) : ∃ v,
    held = .value v := by
  obtain ⟨v, hfind, rfl⟩ := Option.map_eq_some_iff.1 hheld
  exact h.values _ (mem_of_at? hfind)

end Store

namespace Workspace

/-- What compiling a text adds to a workspace. -/
def housing (w : Workspace) (n : Nat) (c : Context) (o : Options) (x : Compiled) : Workspace :=
  { w with contexts := if o.shared then w.contexts else w.contexts.push c
           expressions := w.expressions.push ⟨x, if o.shared then n else w.contexts.size, c.owner⟩ }

theorem compile_eq_housing {w : Workspace} {n : Nat} {c : Context} (hc : w.contexts[n]? = some c)
    (f : Options → Options)
    (text : Text) : w.compile n f text = (c.compile w.host w.store (f c.options) text).map fun x =>
      (w.expressions.size, w.housing n c (f c.options) x) := by
  simp only [compile, hc, cloneContext]
  cases c.compile w.host w.store (f c.options) text with
  | error e => rfl
  | ok x =>
    by_cases hshared : (f c.options).shared = true <;>
      simp [bind, Except.bind, Except.map, housing, hshared]

section Rated

def rated : Store :=
  (priced 2).holding (nameKey false "rate") ⟨"rate", .int .int, .value (.int .int 9)⟩

theorem priced_detached : (priced 2).Detached .usual where
  rule := rfl
  hooks := rfl
  scopes _ h := nomatch h
  values e he := by
    obtain rfl := List.mem_singleton.1 he
    exact ⟨_, rfl⟩

theorem rated_detached : rated.Detached .usual where
  rule := rfl
  hooks := rfl
  scopes _ h := nomatch h
  values e he := by
    rcases Store.mem_of_mem_holding he with hrate | he
    · exact ⟨.int .int 9, by rw [hrate]⟩
    · exact priced_detached.values e he

theorem priced_agrees_rated : (priced 2).Agree ["price"] rated := by
  have hfind : rated.find? "price" = (priced 2).find? "price" := by
    have hkey : nameKey false "price" ≠ nameKey false "rate" := by
      rw [nameKey_false, nameKey_false]
      decide +kernel
    have hprice : rated.key "price" = nameKey false "price" := rfl
    rw [Store.find?_eq_at?, hprice, rated, Store.at?_holding, if_neg hkey]
    rfl
  intro name hname
  obtain rfl := List.mem_singleton.1 hname
  rw [Store.typeOf?, Store.typeOf?, Store.held?, Store.held?, hfind]
  exact ⟨rfl, rfl⟩

theorem identifiers_raised : Context.usual.identifiers {} raised = .ok ["price"] := by
  have hok : ((Context.usual.identifiers {} raised).toOption == some ["price"]) = true := by
    rw [Context.identifiers, Context.parse, Grammar.parse_standing]
    decide +kernel
  cases h : Context.usual.identifiers {} raised with
  | error f =>
    rw [h] at hok
    cases hok
  | ok names =>
    rw [h] at hok
    exact congrArg Except.ok (Option.some.inj (beq_iff_eq.1 hok))

end Rated

/-- Whatever a text is, and whatever options are given along with it: in two stores under the case
rule of its context, without hooks and formulas, that have no variables of the names of imported
namespaces and types and agree on the names that are listed for the text, it is compiled to the
same, which evaluates to the same in both; or it fails in both, with failures of the same reason,
place and token. -/
theorem compile_identified (w : Workspace) (n : Nat) {c : Context} (hc : w.contexts[n]? = some c)
    (f : Options → Options) (text : Text) {s s' : Store} (hs : s.Detached c) (hs' : s'.Detached c)
    (hagree : ∀ names, c.identifiers { caseSensitive := c.options.caseSensitive } text = .ok names →
      s.Agree names s') :
    (∃ i u, ({ w with store := s } : Workspace).compile n f text = .ok (i, u) ∧ u.store = s ∧
      ({ w with store := s' } : Workspace).compile n f text = .ok (i, { u with store := s' }) ∧
      (({ u with store := s' } : Workspace).evaluate i).1 = (u.evaluate i).1) ∨
    ∃ e e', ({ w with store := s } : Workspace).compile n f text = .error e ∧
      ({ w with store := s' } : Workspace).compile n f text = .error e' ∧
      e'.wordless = e.wordless := by
  have hhooks : s'.hooks = s.hooks := hs'.hooks.trans hs.hooks.symm
  have htypes : ∀ name ∈ c.firstNames text, s'.typeOf? name = s.typeOf? name := by
    intro name hname
    obtain ⟨names, hnames⟩ := Context.exists_identifiers hname
    exact hs.typeOf?_eq hs' hnames (hagree names hnames) hname
  have hsame : (c.compile w.host s (f c.options) text).mapError Failure.wordless =
      (c.compile w.host s' (f c.options) text).mapError Failure.wordless :=
        Context.compile_storing hhooks htypes
  have hcompile := compile_eq_housing (w := { w with store := s }) hc f text
  have hcompile' := compile_eq_housing (w := { w with store := s' }) hc f text
  cases hx : c.compile w.host s (f c.options) text with
  | error e =>
    rw [hx] at hsame hcompile
    cases hx' : c.compile w.host s' (f c.options) text with
    | ok x =>
      rw [hx'] at hsame
      cases hsame
    | error e' =>
      rw [hx'] at hsame hcompile'
      exact .inr ⟨e, e', hcompile, hcompile', (Except.error.inj hsame).symm⟩
  | ok x =>
    have hx' : c.compile w.host s' (f c.options) text = .ok x :=
      mapError_eq_ok.1 (hsame.symm.trans (congrArg _ hx))
    rw [hx] at hcompile
    rw [hx'] at hcompile'
    refine .inl ⟨_, _, hcompile, rfl, hcompile', ?_⟩
    refine evaluate_storing Array.getElem?_push_size hhooks (fun name hname => ?_) fun name m
      t hformula => ?_
    · obtain ⟨root, hroot, -⟩ := Context.compile_eq_ok hx
      obtain ⟨tree, inner, htree, -⟩ := Context.element_eq_ok hroot
      obtain ⟨names, hnames⟩ := Context.identifiers_of_parse htree
      exact hs.held?_eq hs' hnames (hagree names hnames) hx hname
    · obtain ⟨v, hv⟩ := hs.eq_value hformula
      cases hv

/-- A rate makes no difference to a price and one more. -/
theorem compile_raised_identified : ∃ i u, ({ create .bare .usual with
    store := priced 2 } : Workspace).compile 0 id raised =
      .ok (i, u) ∧
    ({ create .bare .usual with store := rated } : Workspace).compile 0 id raised =
      .ok (i, { u with store := rated }) ∧
    (({ u with store := rated } : Workspace).evaluate i).1 = (u.evaluate i).1 := by
  obtain ⟨x, hx, -⟩ := compile_raised
  have hagree : ∀ names, Context.usual.identifiers {} raised = .ok names →
      (priced 2).Agree names rated := by
    intro names hnames
    rw [identifiers_raised] at hnames
    cases hnames
    exact priced_agrees_rated
  rcases compile_identified (create .bare .usual) 0 (c := .usual) rfl id raised priced_detached
    rated_detached hagree with
    ⟨i, u, hcompile, -, hcompile', hvalue⟩ | ⟨e, e', hfails, -⟩
  · exact ⟨i, u, hcompile, hcompile', hvalue⟩
  · rw [compile_raising hx] at hfails
    cases hfails

end Workspace

end Formulary
