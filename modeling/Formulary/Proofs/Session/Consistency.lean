import Formulary.Proofs.Scope.Consistency
import Formulary.Proofs.Session.Formulas

/-!
# Variables of a session

However the variables of a session are defined, set, removed and put under another case rule,
whatever is compiled and evaluated in between, the store stays consistent. So a variable can be read
at the type it was declared with: what it holds is of this type, and so is every value of an
expression that it holds.
-/

namespace Formulary

open Machine Relation

variable {host : Host}

/-- A value can be read at a type that its own type can be assigned to. -/
theorem Store.coerce_eq_pure (name : String) {t : Ty} {v : Value}
    (h : ∀ u, v.type? = some u → host.isAssignable u t = true) : ∃ x,
    coerce host name t v = pure x := by
  unfold coerce
  split
  · exact ⟨_, rfl⟩
  · rename_i u hu
    split
    · exact ⟨_, rfl⟩
    · rw [if_pos (h u hu)]
      exact ⟨_, rfl⟩

/-- What is held besides values: expressions of a workspace, with the types they have. -/
def Held.Belongs (w : Workspace) : Held → Prop
  | .value _ => True
  | .formula n t => ∃ e, w.expressions[n]? = some e ∧ e.compiled.type = t

/-- A change that brings a genuine value, or an expression of a workspace. -/
def Store.Change.Supplied (w : Workspace) (ch : Store.Change) : Prop :=
  ∀ held, ch.held? = some held → held.Genuine w.host ∧ held.Belongs w

namespace Workspace

def change (w : Workspace) (ch : Store.Change) : Workspace :=
  { w with store := w.store.after w.host ch }

/-- One step of a session, seen from its variables: a change of them, options that may change the
case rule, or any other step, which leaves them as they are. -/
inductive Turn (w : Workspace) : Workspace → Prop
  | change {ch : Store.Change} (h : ch.Supplied w) : Turn w (w.change ch)
  | setOptions (n : Nat) (f : Options → Options) : Turn w (w.setOptions n f)
  | elsewhere {w' : Workspace} (h : w.Next w') (hentries : w'.store.entries = w.store.entries)
    (hrule : w'.store.caseSensitive = w.store.caseSensitive) : Turn w w'

structure Ordered (w : Workspace) : Prop where
  sound : w.Sound
  store : w.store.Consistent w.host
  held : ∀ e ∈ w.store.entries, e.2.held.Belongs w

section Turns

variable {w w' : Workspace}

/-- Expressions keep their types. -/
theorem Keeps.belongs (h : w.Keeps w') {held : Held} (hheld : held.Belongs w) :
    held.Belongs w' := by
  cases held with
  | value v => trivial
  | formula n t =>
    obtain ⟨e, he, htype⟩ := hheld
    obtain ⟨e', he', hcompiled, -⟩ := h.expressions n e he
    exact ⟨e', he', by rw [hcompiled, htype]⟩

/-- Options change the store at most by their case rule. -/
theorem store_setOptions (w : Workspace) (n : Nat) (f : Options → Options) :
    ∃ b, (w.setOptions n f).store = w.store.after w.host (.caseRule b) := by
  have hsame : w.store = w.store.after w.host (.caseRule w.store.caseSensitive) := by
    simp [Store.after, Store.apply, Store.withCaseRule]
  unfold setOptions
  split
  · exact ⟨_, hsame⟩
  · rename_i c hc
    simp only
    split
    · exact ⟨_, hsame⟩
    · exact ⟨(f c.options).caseSensitive, rfl⟩

/-- What a step does: the session goes on, and its variables see a change that is supplied. -/
theorem Ordered.evolves (h : w.Ordered) (hturn : w.Turn w') : w.Evolves w' ∧ ∃ ch :
    Store.Change, ch.Supplied w ∧
    w'.store.entries = (w.store.after w.host ch).entries ∧
      w'.store.caseSensitive = (w.store.after w.host ch).caseSensitive := by
  cases hturn with
  | @change ch hch =>
    refine ⟨?_, ch, hch, rfl, rfl⟩
    have hgenuine : (w.store.after w.host ch).Genuine w.host :=
      ⟨Store.held_after h.sound.store.entries fun held hheld => (hch held hheld).1,
        (Store.hooks_after w.store w.host ch) ▸ h.sound.store.hooks⟩
    exact h.sound.restore hgenuine w.tally
  | setOptions n f =>
    obtain ⟨b, hb⟩ := store_setOptions w n f
    exact ⟨h.sound.next (.setOptions n f), .caseRule b, nofun, by rw [hb], by rw [hb]⟩
  | elsewhere hnext hentries hrule =>
    refine ⟨h.sound.next hnext, .caseRule w.store.caseSensitive, nofun, ?_⟩
    simp [Store.after, Store.apply, Store.withCaseRule, hentries, hrule]

/-- A step keeps a workspace ordered. -/
theorem Ordered.turn (h : w.Ordered) (hturn : w.Turn w') : w'.Ordered := by
  obtain ⟨hevolves, ch, hch, hentries, hrule⟩ := h.evolves hturn
  have hafter := h.store.after ch
  refine ⟨hevolves.2, ⟨fun e he => ?_, ?_, fun e he => ?_⟩, fun e he => hevolves.1.belongs ?_⟩
  · rw [Store.key, hrule]
    exact hafter.keyed e (hentries ▸ he)
  · rw [hentries]
    exact hafter.distinct
  · rw [hevolves.1.host]
    exact hafter.fits e (hentries ▸ he)
  · exact Store.held_after h.held (fun held hheld => (hch held hheld).2) e (hentries ▸ he)

/-- So do any number of steps. -/
theorem Ordered.turns (h : w.Ordered) (hturns : ReflTransGen Turn w w') : w'.Ordered ∧
    w'.host = w.host := by
  induction hturns with
  | refl => exact ⟨h, rfl⟩
  | tail _ hturn ih => exact ⟨ih.1.turn hturn, (ih.1.evolves hturn).1.1.host.trans ih.2⟩

/-- A step leaves the declared types of variables as they are. -/
theorem Ordered.type_eq (h : w.Ordered) (hturn : w.Turn w') {e e' : Text × Variable}
    (he : e ∈ w.store.entries)
    (he' : e' ∈ w'.store.entries) (hname : e'.2.name = e.2.name) : e'.2.type = e.2.type := by
  obtain ⟨-, ch, -, hentries, -⟩ := h.evolves hturn
  exact h.store.type_after ch he (hentries ▸ he') hname

/-- A step after which a variable of a name is in the store. -/
def Staying (name : String) (w w' : Workspace) : Prop :=
  w.Turn w' ∧ ∃ e ∈ w'.store.entries, e.2.name = name

/-- The steps of a session leave a declared type as it is, as long as the variable is in the
store. -/
theorem Ordered.type_stays (h : w.Ordered) {e : Text × Variable} (he : e ∈ w.store.entries)
    (hstays : ReflTransGen (Staying e.2.name) w w') {e' : Text × Variable}
    (he' : e' ∈ w'.store.entries)
    (hname : e'.2.name = e.2.name) : e'.2.type = e.2.type := by
  induction hstays generalizing e' with
  | refl => rw [h.store.eq_of_name he he' hname]
  | @tail w' w'' hstays hstep ih =>
    have hordered : w'.Ordered :=
      (h.turns (ReflTransGen.mono (fun _ _ hstep => hstep.1) _ _ hstays)).1
    have hbefore : ∃ x ∈ w'.store.entries, x.2.name = e.2.name := by
      cases hstays with
      | refl => exact ⟨e, he, rfl⟩
      | tail _ hlast => exact hlast.2
    obtain ⟨x, hx, hxname⟩ := hbefore
    rw [hordered.type_eq hstep.1 hx he' (hname.trans hxname.symm), ih hx hxname]

/-- The values of an expression are of its type, whatever formulas it reads. -/
theorem Sound.valueOf_fits (h : w.Sound) {n : Nat} {e : Expression}
    (he : w.expressions[n]? = some e) {depth : Nat}
    {tally tally' : Tally} {v : Value} (hrun : (w.valueOf depth n).run tally = (.ok v, tally')) :
    w.host.Fits e.compiled.type v := by
  cases depth with
  | zero => cases hrun
  | succ depth =>
    obtain ⟨s, hs⟩ := h.expressions n e he
    obtain ⟨x, hx, hprogram, htype⟩ := hs.element
    rw [valueOf_succ he, hprogram] at hrun
    have hsuits := hs.suits h fun n tally tally' v hv => h.valueOf_genuine depth n hv
    rw [htype, ← hs.host]
    exact (hx.gives hs.honest hsuits tally tally' v hrun).1

/-- A variable that is read at its declared type has a value, or holds an expression that fails. -/
theorem Ordered.load (h : w.Ordered) {name : String} {v : Variable}
    (hfind : w.store.find? name = some v) {depth : Nat}
    {tally tally' : Tally} {r : Except Failure Value}
    (hrun : (w.store.load w.host (w.valueOf depth) name v.type).run tally = (r, tally')) :
    (∃ x, r = .ok x) ∨ ∃ n t f, v.held = .formula n t ∧
      (w.valueOf depth n).run tally = (.error f, tally') ∧
      r = .error (.within s!"variable {name}" f) := by
  have hmem := Store.mem_of_at? hfind
  have hfits := h.store.fits _ hmem
  have hbelongs := h.held _ hmem
  obtain ⟨own, type, held⟩ := v
  simp only [Store.load, hfind] at hrun
  cases held with
  | value y =>
    obtain ⟨x, hx⟩ := Store.coerce_eq_pure name (v := y) (t := type) hfits
    simp only [pure_bind, hx] at hrun
    cases hrun
    exact .inl ⟨x, rfl⟩
  | formula n t =>
    obtain ⟨e, he, rfl⟩ := hbelongs
    rw [run_bind_eq, run_naming_eq] at hrun
    cases hvalue : (w.valueOf depth n).run tally with
    | mk r' u =>
      rw [hvalue] at hrun
      cases r' with
      | error f =>
        cases hrun
        exact .inr ⟨n, _, f, rfl, hvalue, rfl⟩
      | ok y =>
        have hy := h.sound.valueOf_fits he hvalue
        have hassignable : ∀ u, y.type? = some u → w.host.isAssignable u type = true :=
          fun u hu => hy.isAssignable hu (hfits _ rfl)
        obtain ⟨x, hx⟩ := Store.coerce_eq_pure name hassignable
        simp only [hx] at hrun
        cases hrun
        exact .inl ⟨x, rfl⟩

/-- A new workspace is in order. -/
theorem create_ordered (honest : host.Honest) {c : Context} (hc : c.Honest host) :
    (create host c).Ordered where
  sound := create_sound honest hc
  store := .empty _ _
  held := nofun

end Turns

/-- In any session: the variables stand under the keys of their own names by the case rule that
holds, one under each key; what they hold can be assigned to the types they were declared with; a
variable keeps this type as long as it is in the store; a refused change leaves everything as it is;
and a variable that is read at its declared type has a value, or holds an expression whose
evaluation fails. -/
theorem variables_consistent (honest : host.Honest) {c : Context}
    (hc : c.Honest host) {w : Workspace} (hw : ReflTransGen Turn (create host c) w) :
    w.store.Consistent host ∧
      (∀ w' e e', e ∈ w.store.entries → ReflTransGen (Staying e.2.name) w w' →
        e' ∈ w'.store.entries →
        e'.2.name = e.2.name → e'.2.type = e.2.type) ∧
      (∀ ch fault, (w.store.apply host ch).1 = .error fault → w.change ch = w) ∧
      ∀ name v depth tally tally' r, w.store.find? name = some v →
        (w.store.load host (w.valueOf depth) name v.type).run tally = (r, tally') →
        (∃ x, r = .ok x) ∨ ∃ n t f, v.held = .formula n t ∧
          (w.valueOf depth n).run tally = (.error f, tally') ∧
          r = .error (.within s!"variable {name}" f) := by
  obtain ⟨hordered, hsame⟩ := (create_ordered honest hc).turns hw
  have hhost : w.host = host := hsame
  refine ⟨hhost ▸ hordered.store, fun w' e e' he hstays he' hname =>
    hordered.type_stays he hstays he' hname, ?_, ?_⟩
  · intro ch fault hrefused
    rw [← hhost] at hrefused
    rw [change, Store.after_refused hrefused]
  · intro name v depth tally tally' r hfind hrun
    rw [← hhost] at hrun
    exact hordered.load hfind hrun

/-- A variable that is calculated from a price can be read at its type. -/
theorem variables_raised_consistent : ∃ w, ReflTransGen Turn (create .bare .usual) w ∧
    w.store.find? "raised" = some ⟨"raised", .int .int, .formula 0 (.int .int)⟩ ∧
      w.store.Consistent .bare ∧
      ∀ depth tally tally' r, (w.store.load .bare (w.valueOf depth) "raised" (.int .int)).run
        tally = (r, tally') →
        (∃ x, r = .ok x) ∨ ∃ f, (w.valueOf depth 0).run tally = (.error f, tally') := by
  obtain ⟨x, hx, htype, -⟩ := compile_raised
  have hprice : (Store.Change.define "price" none (.value (.int .int 2))).Supplied
      (create .bare .usual) := by
    rintro _ ⟨⟩
    exact ⟨trivial, trivial⟩
  have hraised : (Store.Change.define "raised" none (.formula 0 (.int .int))).Supplied
      (raising x) := by
    rintro _ ⟨⟩
    exact ⟨trivial, ⟨x, 1, .nil⟩, rfl, htype⟩
  have hpriced : (create .bare .usual).change (.define "price" none (.value (.int .int 2))) =
      { create .bare .usual with store := priced 2 } := rfl
  have hcompiled : ({ create .bare .usual with store := priced 2 } : Workspace).Turn (raising x) :=
    .elsewhere (.compile (compile_raising hx)) rfl rfl
  have hsession : ReflTransGen Turn (create .bare .usual)
      ((raising x).change (.define "raised" none (.formula 0 (.int .int)))) :=
    ((ReflTransGen.single (hpriced ▸ .change hprice)).tail hcompiled).tail (.change hraised)
  have hfind : ((raising x).change (.define "raised" none (.formula 0 (.int .int)))).store.find?
    "raised" =
      some ⟨"raised", .int .int, .formula 0 (.int .int)⟩ := by
    have happly : (raising x).store.apply (raising x).host
      (.define "raised" none (.formula 0 (.int .int))) =
        (.ok (), (priced 2).holding (nameKey false "raised")
          ⟨"raised", .int .int, .formula 0 (.int .int)⟩) :=
      define_raised
    have hstore : ((raising x).change (.define "raised" none (.formula 0 (.int .int)))).store =
        (priced 2).holding (nameKey false "raised")
          ⟨"raised", .int .int, .formula 0 (.int .int)⟩ := by
      rw [change, Store.after, happly]
    rw [hstore]
    exact (Store.at?_holding _ _ _ _).trans (if_pos rfl)
  obtain ⟨hconsistent, -, -, hload⟩ := variables_consistent Host.bare_honest
    Context.usual_honest hsession
  refine ⟨_, hsession, hfind, hconsistent, fun depth tally tally' r hrun => ?_⟩
  refine (hload "raised" _ depth tally tally' r hfind hrun).imp id ?_
  rintro ⟨n, t, f, ⟨⟩, hvalue, -⟩
  exact ⟨f, hvalue⟩

end Workspace

end Formulary
