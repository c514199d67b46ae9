import Formulary.Proofs.Session.TypeSafety
import Formulary.Shell.Line
import Formulary.Shell.Settings

/-!
# Assignments of the shell are atomic

An assignment removes the old variable before it defines the new one. That it never stops between
the two rests on type safety: what a text evaluates to can be stored under the type that the text
was compiled to. So a line leaves the store as it is, or puts one variable in the place of another,
or takes one away.
-/

namespace Formulary

namespace Store

structure Rebound (s s' : Store) (name : String) (x : Option Variable) : Prop where
  caseSensitive : s'.caseSensitive = s.caseSensitive
  hooks : s'.hooks = s.hooks
  ranging : s'.ranging = s.ranging
  others : s'.entries.filter (·.1 != s.key name) = s.entries.filter (·.1 != s.key name)
  here : s'.entries.filter (·.1 == s.key name) = x.toList.map (s.key name, ·)

variable {s : Store} {host : Host} {name : String} {t : Ty} {v : Value}

/-- What fits a type can be stored under it. -/
theorem misfit?_of_fits (h : host.Fits t v) : misfit? host name t (.value v) = none := by
  have htype : (Held.value v).type? = v.type? := rfl
  unfold Host.Fits at h
  rw [misfit?, htype]
  cases hu : v.type? with
  | none => rfl
  | some u =>
    rw [hu] at h
    dsimp only at h
    have hassignable : host.isAssignable u t = true := by
      split at h
      · simp [Host.isAssignable, Host.suits, h]
      · simp [Host.isAssignable, Host.suits, h]
    exact if_pos hassignable

theorem rebound_remove (s : Store) (name : String) : s.Rebound (s.remove name) name none where
  caseSensitive := rfl
  hooks := rfl
  ranging := rfl
  others := by simp [remove]
  here := by
    simp only [remove, List.filter_filter, Option.toList_none, List.map_nil, List.filter_eq_nil_iff]
    intro e _
    by_cases he : e.1 = s.key name
    · simp [he]
    · simp [he]

/-- A variable put under a key that nothing stands under comes last. -/
theorem put_eq_append {k : Text} {x : Variable} {es : List (Text × Variable)}
    (h : ∀ e ∈ es, e.1 ≠ k) :
    put k x es = es ++ [(k, x)] := by
  induction es with
  | nil => rfl
  | cons e es ih =>
    obtain ⟨l, w⟩ := e
    obtain ⟨hl, hes⟩ := List.forall_mem_cons.1 h
    rw [put, if_neg (by simpa using hl), ih hes]
    rfl

/-- What fits a type is defined under it once the old variable is gone. -/
theorem define_remove (hname : name.isEmpty = false) (hfits : host.Fits t v) :
    ∃ s', (s.remove name).define host name (some t) (.value v) = (.ok (), s') ∧
      s.Rebound s' name (some ⟨name, t, .value v⟩) := by
  have hkey : (s.remove name).key name = s.key name := rfl
  have hgone : ∀ e ∈ (s.remove name).entries, e.1 ≠ s.key name := fun e he => by
    simpa using (List.mem_filter.1 he).2
  have hnone : (s.remove name).contains name = false := by
    simp [contains, find?_eq_at?, hkey]
  refine ⟨(s.remove name).holding (s.key name) ⟨name, t, .value v⟩, ?_, rfl, rfl, rfl, ?_, ?_⟩
  · simp [define, hname, misfit?_of_fits hfits, hnone, holding, hkey]
  · rw [holding, put_eq_append hgone]
    simp [remove]
  · rw [holding, put_eq_append hgone, List.filter_append, (rebound_remove s name).here]
    simp

end Store

namespace Desk

structure Sound (d : Desk) : Prop where
  workspace : d.toWorkspace.Sound
  context : d.context.Honest d.host

variable {d d' : Desk} {name : String} {text : Text} {c : Compiled} {v : Value} {f : Failure}

/-- What a text is evaluated in suits what it was compiled in. -/
theorem Sound.suits (h : d.Sound) : d.environment.Suits
    (d.context.scope d.host d.store d.context.options) where
  host := rfl
  owner _ ho := Host.Has.serves ⟨Host.fits_of_type ho (h.context.owner.not_interface ho),
    h.context.owner⟩
  load name t := Store.load_gives h.workspace.host h.workspace.store
    (fun n _ _ _ hv => h.workspace.valueOf_genuine _ n hv) name t
  demand name t _ hargs := Store.demand_gives h.workspace.host h.workspace.store name t hargs

/-- The value of a text is of the type it was compiled to. -/
theorem Sound.run_has (h : d.Sound) (hcompile : d.compile text = .ok c)
    (hrun : (d.run c).1 = .ok v) :
    d.host.Has c.type v := by
  obtain ⟨x, hx, hprogram, htype, -⟩ := Context.compile_typed hcompile
  have hhonest := h.context.scope h.workspace.host d.store d.context.options
  cases hv : (runProgram d.environment c.program).run d.tally with
  | mk r tally =>
    simp only [run, hv] at hrun
    subst hrun
    rw [hprogram] at hv
    rw [htype]
    exact hx.gives hhonest h.suits d.tally tally v hv

/-- Only the store and the tally of a desk change, to ones that keep it sound. -/
theorem Sound.restore (h : d.Sound) {s : Store} (hs : s.Genuine d.host) (tally : Tally) :
    Sound { d with store := s, tally := tally } :=
  ⟨(h.workspace.restore hs tally).2, h.context⟩

/-- An evaluation changes the tally only. -/
theorem run_eq (d : Desk) (c : Compiled) :
    ∃ tally, d.run c = ((d.run c).1, { d with tally := tally }) := ⟨_, rfl⟩

/-- On the later desk the value of a text stands in the place of a variable, under the type of the
text. Both are those that the earlier desk gives. -/
def Assigned (d d' : Desk) (name : String) (text : Text) : Prop :=
  ∃ c v, name ≠ "" ∧ d.compile text = .ok c ∧ (d.run c).1 = .ok v ∧
    d.store.Rebound d'.store name (some ⟨name, c.type, .value v⟩)

/-- An assignment that cannot be carried out: there is no name, or the text does not compile or has
no value. -/
def Unassignable (d : Desk) (name : String) (text : Text) : Prop :=
  name = "" ∨ (∃ f, d.compile text = .error f) ∨ ∃ c f, d.compile text = .ok c ∧
    (d.run c).1 = .error f

/-- An assignment puts the value of its text in the place of a variable, or leaves the store as it
is. -/
theorem Sound.assign (h : d.Sound) (name : String) (text : Text) :
    (∃ d', d.assign name text = (.ok (), d') ∧ d'.Sound ∧ d.Assigned d' name text) ∨
      ∃ f tally, d.assign name text = (.error f, { d with tally := tally }) ∧
        d.Unassignable name text := by
  unfold Desk.assign
  by_cases hname : name.isEmpty = true
  · rw [if_pos hname]
    exact .inr ⟨_, d.tally, rfl, .inl (String.isEmpty_iff.1 hname)⟩
  · rw [if_neg hname]
    have hne : name ≠ "" := fun heq => hname (by rw [heq]; rfl)
    cases hcompile : d.compile text with
    | error g =>
      refine .inr ?_
      split
      · exact ⟨_, d.tally, rfl, .inr (.inl ⟨_, hcompile⟩)⟩
      · exact ⟨_, d.tally, rfl, .inr (.inl ⟨_, hcompile⟩)⟩
      · contradiction
    | ok c =>
      obtain ⟨tally, hrun⟩ := run_eq d c
      dsimp only
      rw [hrun]
      cases hv : (d.run c).1 with
      | error g => exact .inr ⟨_, tally, rfl, .inr (.inr ⟨c, g, hcompile, hv⟩)⟩
      | ok v =>
        -- The old variable is gone by now; the definition cannot fail, since the value is of the
        -- type of the text.
        obtain ⟨hfits, hgenuine⟩ := h.run_has hcompile hv
        obtain ⟨s, hdefine, hrebound⟩ := Store.define_remove (s := d.store)
          (by simpa using hname) hfits
        have hheld : (Held.value v).Genuine d.host := hgenuine
        have hstore := (h.workspace.store.remove name).define hheld hdefine
        refine .inl ⟨{ d with store := s, tally := tally }, ?_, h.restore hstore tally, c, v, hne,
          hcompile, hv, hrebound⟩
        simp only [hdefine]

/-- A new desk of honest imports is sound. -/
theorem create_sound {host : Host} {imports : List Member} {o : Options} (honest : host.Honest)
    (himports : Imports.Honest host imports) (h : create host imports o = .ok d) : d.Sound := by
  unfold create Context.create at h
  split at h
  · cases h
  · rename_i c hc
    split at hc
    · cases hc
    · cases hc
      cases h
      have hworkspace :
          Workspace.Sound { host := host, store := { caseSensitive := o.caseSensitive } } :=
        ⟨honest, ⟨nofun, ⟨nofun, nofun⟩⟩, fun n c hc => by simp at hc, fun n e he => by simp at he⟩
      exact ⟨hworkspace, himports, ⟨nofun, nofun, nofun, nofun⟩, trivial⟩

end Desk

namespace Shell

variable {d : Desk}

/-- What a command does to the variables of a desk: an assignment is carried out in silence, or it
tells a failure and leaves them as they are; one command takes a variable away; no other command
changes them. -/
def Effect (d : Desk) (command : Command) (reply : Except Failure Reply) (d' : Desk) : Prop :=
  match command with
  | .assign name text =>
    (reply = .ok {} ∧ d.Assigned d' name.toString text) ∨
      (((∃ f, reply = .ok (.failure f)) ∨ ∃ words, reply = .error (.broken words)) ∧
        d.Unassignable name.toString text ∧ d'.store = d.store)
  | .forget name => d.store.Rebound d'.store name.toString none
  | _ => d'.store = d.store

theorem compiling_desk {text : Text} {reply : Compiled → Reply × Desk}
    (hreply : ∀ c, ∃ tally, (reply c).2 = { d with tally := tally }) :
    ∃ tally, (compiling d text reply).2 = { d with tally := tally } := by
  unfold compiling
  split
  · exact hreply _
  · exact ⟨d.tally, rfl⟩
  · exact ⟨d.tally, rfl⟩

/-- A step of a session in the shell keeps the desk sound, whatever the command. -/
theorem perform_effect (h : d.Sound) (command : Command) :
    (perform d command).2.Sound ∧ Effect d command (perform d command).1 (perform d command).2 := by
  have hkeeps : ∀ {x : Except Failure Reply × Desk}, (∃ tally, x.2 = { d with tally := tally }) →
      x.2.Sound ∧ x.2.store = d.store := by
    rintro x ⟨tally, hx⟩
    rw [hx]
    exact ⟨h.restore h.workspace.store tally, rfl⟩
  cases command with
  | assign name text =>
    rw [perform]
    rcases h.assign name.toString text with
      ⟨d', hassign, hsound, hassigned⟩ | ⟨f, tally, hassign, hfails⟩
    · rw [hassign]
      exact ⟨hsound, .inl ⟨rfl, hassigned⟩⟩
    · rw [hassign]
      have hsound := h.restore h.workspace.store tally
      cases f with
      | broken words => exact ⟨hsound, .inr ⟨.inr ⟨words, rfl⟩, hfails, rfl⟩⟩
      | _ => exact ⟨hsound, .inr ⟨.inl ⟨_, rfl⟩, hfails, rfl⟩⟩
  | forget name =>
    exact ⟨h.restore (h.workspace.store.remove name.toString) d.tally,
      d.store.rebound_remove name.toString⟩
  | evaluate text =>
    refine hkeeps (compiling_desk fun c => ?_)
    obtain ⟨tally, hrun⟩ := d.run_eq c
    rw [hrun]
    cases (d.run c).1 with
    | ok v => exact ⟨tally, rfl⟩
    | error f => exact ⟨tally, rfl⟩
  | typeOf text | listing text => exact hkeeps (compiling_desk fun _ => ⟨d.tally, rfl⟩)
  | names text =>
    refine hkeeps ⟨d.tally, ?_⟩
    rw [perform]
    split <;> rfl
  | _ => exact hkeeps ⟨d.tally, rfl⟩

/-- The desk after some lines. -/
def after (d : Desk) (lines : List Text) : Desk := lines.foldl (fun d line => (answer d line).2) d

theorem after_sound (h : d.Sound) (lines : List Text) : (after d lines).Sound := by
  induction lines generalizing d with
  | nil => exact h
  | cons line lines ih => exact ih (perform_effect h _).1

/-- From a sound desk every line leaves a sound desk. A line leaves the variables as they are,
unless it is an assignment of a text that compiles and has a value, or takes a variable away; an
assignment that tells a failure leaves them as they are. So does one among the settings, whose
failure ends everything. -/
theorem assignments_atomic (h : d.Sound) :
    (∀ lines, (after d lines).Sound) ∧
      (∀ line reply d', answer d line = (reply, d') → Effect d (.read line) reply d') ∧
      ∀ assignment,
        match Settings.assigned d assignment with
        | .ok d' => ∃ name text, Text.cut? 0x3D assignment = some (name, text) ∧
            d.Assigned d' name.trim.toString text
        | .error _ => ∀ name text, Text.cut? 0x3D assignment = some (name, text) →
          d.Unassignable name.trim.toString text ∧
            (d.assign name.trim.toString text).2.store = d.store := by
  refine ⟨after_sound h, fun line reply d' hanswer => ?_, fun assignment => ?_⟩
  · have heffect := (perform_effect h (.read line)).2
    rwa [show perform d (.read line) = (reply, d') from hanswer] at heffect
  · cases hcut : Text.cut? 0x3D assignment with
    | none =>
      rw [Settings.assigned, hcut]
      exact fun _ _ hsome => nomatch hsome
    | some parts =>
      obtain ⟨name, text⟩ := parts
      rw [Settings.assigned, hcut]
      dsimp only
      generalize hname : name.trim.toString = n
      rcases h.assign n text with ⟨d', hassign, -, hassigned⟩ | ⟨f, tally, hassign, hfails⟩
      · rw [hassign]
        exact ⟨name, text, rfl, hname ▸ hassigned⟩
      · rw [hassign]
        intro name' text' hsame
        cases hsame
        rw [hname, hassign]
        exact ⟨hfails, rfl⟩

theorem read_assignment : Command.read (Text.ofString ":set x = 3") =
    .assign (Text.ofString "x") (Text.ofString " 3") := rfl

theorem toString_named : (Text.ofString "x").toString = "x" := rfl

/-- A new desk. -/
def newDesk : Desk where
  host := .bare
  context := .usual

theorem create_newDesk : Desk.create .bare [] {} = .ok newDesk := by
  have hfault : ({} : Options).lexical.fault? = none := by decide
  simp only [Desk.create, Context.create, hfault]
  rfl

theorem assign_newDesk : (newDesk.assign "x" (Text.ofString " 3")).1.isOk = true := by
  rw [Desk.assign, Desk.compile, Context.compile, Context.element, Context.parse,
    Grammar.parse_standing]
  decide +kernel

/-- On a new desk, `:set x = 3` is carried out. -/
theorem assignments_atomic_newDesk : ∃ d', answer newDesk
    (Text.ofString ":set x = 3") = (.ok {}, d') ∧
    newDesk.Assigned d' "x" (Text.ofString " 3") := by
  have hsound := Desk.create_sound Host.bare_honest .nil create_newDesk
  have hok := assign_newDesk
  cases hassign : newDesk.assign "x" (Text.ofString " 3") with
  | mk r d' =>
    rw [hassign] at hok
    cases r with
    | error f => cases hok
    | ok u =>
      have hanswer : answer newDesk (Text.ofString ":set x = 3") = (.ok {}, d') := by
        rw [answer, read_assignment, perform, toString_named, hassign]
      have heffect := (assignments_atomic hsound).2.1 _ _ _ hanswer
      rw [read_assignment, Effect, toString_named] at heffect
      rcases heffect with ⟨-, hassigned⟩ | ⟨⟨f, hfailure⟩ | ⟨words, hbroken⟩, -, -⟩
      · exact ⟨d', hanswer, hassigned⟩
      · simp [Reply.failure, Reply.words, Reply.line] at hfailure
      · cases hbroken

end Shell

end Formulary
