import Formulary.Proofs.Element.Balance
import Formulary.Proofs.Element.Results

/-!
# Type safety of programs

The types of elements as layouts: every position of a program is reached with values of the types
that the elements before it have. So a run that ends gives a value of the type of its element, and
no operator finds an operand of another type. A branch finds a boolean as well, except behind a test
for membership that an overload of equality answers with something else.
-/

namespace Formulary

open Machine Machine.Lines

/-- The values an instruction takes for ones of certain types are of these types. -/
def Instruction.Asserts (host : Host) : Instruction → Stack → Prop
  | .unary op _, stack => ∃ a rest, stack = a :: rest ∧ op.Asserts host a
  | .binary op _, stack => ∃ a b rest, stack = b :: a :: rest ∧ op.Asserts host a b
  | .contains _, stack => ∃ v c rest, stack = v :: c :: rest ∧ c.isSearchable = true
  | _, _ => True

/-- The values a step takes for ones of certain types are of these types: a branch decides on a
boolean. -/
def Machine.Step.Asserts (host : Host) : Step Nat Instruction → Stack → Prop
  | .jumpIf _ _, stack => ∃ b rest, stack = .bool b :: rest
  | .act i, stack => i.Asserts host stack
  | _, _ => True

inductive Slot where
  | of (t : Ty)
  | owner (t : Ty)

def Slot.Holds (host : Host) : Slot → Value → Prop
  | .of t, v => host.Has t v
  | .owner t, v => host.Serves t v

structure Environment.Suits (env : Environment) (s : Scope) : Prop where
  host : env.host = s.host
  owner : ∀ o, s.ownerType = some o → s.host.Serves o env.owner
  load : ∀ name t, s.host.Gives t (env.load name t)
  demand : ∀ name t args, (∀ a ∈ args, a.Genuine s.host) → s.host.Gives t (env.demand name t args)

/-- Types as layouts. An instruction leads from one layout to another if it finds the types it asks
for and leaves values of the types that are said. -/
def typing (s : Scope) (env : Environment) : Discipline Instruction Slot where
  decides a := ∃ t, a = .of t ∧ s.Compared t
  pushes v a := a.Holds s.host v
  acts i l l' := ∀ stack, List.Forall₂ (Slot.Holds s.host) l stack → i.Asserts s.host stack ∧
    ∀ stack' tally tally', (i.perform env stack).run tally = (.ok stack', tally') →
      List.Forall₂ (Slot.Holds s.host) l' stack'

theorem typing_sound (s : Scope) (env : Environment) :
    (typing s env).Sound (Instruction.perform env) (Slot.Holds s.host) where
  push _ _ h := h
  act _ _ _ stack stack' tally tally' hacts hs hrun := (hacts stack hs).2 stack' tally tally' hrun

/-- The places that hold the values of an element: its type, or a wider one. A duplicate stands for
what is on top. -/
def Element.Stays (s : Scope) (last : Option Slot) (e : Element) (a : Slot) : Prop :=
  (∃ t : Option Ty, (∀ u, t = some u → ∃ b, last = some b ∧ ∀ v, b.Holds s.host v →
    s.host.Has u v) ∧ Typed s t e ∧
    ∀ v, s.host.Has e.type v → a.Holds s.host v) ∨
  ∃ o, e = .owner o ∧ s.ownerType = some o ∧ a = .owner o

section Stays

variable {s : Scope} {env : Environment} {last : Option Slot} {a : Slot} {l : List Slot} {t : Ty}

/-- A result put on the rest of the stack. -/
theorem holds_pushed {x : Eval Value} (h : s.host.Gives t x)
    (ha : ∀ v, s.host.Has t v → a.Holds s.host v)
    {rest stack' : Stack} (hrest : List.Forall₂ (Slot.Holds s.host) l rest) {tally tally' : Tally}
    (hrun : (do pure ((← x) :: rest) : Eval Stack).run tally = (.ok stack', tally')) :
    List.Forall₂ (Slot.Holds s.host) (a :: l) stack' := by
  obtain ⟨r, u, hr, hp⟩ := run_bind_eq_ok.1 hrun
  obtain ⟨rfl, -⟩ := run_pure_eq_ok.1 hp
  exact .cons (ha r (h _ _ r hr)) hrest

/-- The latest values in the order they were pushed, and the rest. -/
theorem holds_popMany {bs : List Slot} {stack rest : Stack} {args : List Value}
    {tally tally' : Tally} (h : List.Forall₂ (Slot.Holds s.host) (bs.reverse ++ l) stack)
    (hpop : (Instruction.popMany bs.length stack).run tally = (.ok (args, rest), tally')) :
    List.Forall₂ (Slot.Holds s.host) bs args ∧ List.Forall₂ (Slot.Holds s.host) l rest := by
  unfold Instruction.popMany at hpop
  split at hpop
  · exact absurd hpop run_breakdown_ne_ok
  · obtain ⟨heq, -⟩ := run_pure_eq_ok.1 hpop
    obtain ⟨rfl, rfl⟩ := Prod.mk.inj heq
    have htake := (List.forall₂_take_append stack bs.reverse l h.flip).flip
    have hdrop := (List.forall₂_drop_append stack bs.reverse l h.flip).flip
    rw [List.length_reverse] at htake hdrop
    have hargs := List.rel_reverse htake
    rw [List.reverse_reverse] at hargs
    exact ⟨hargs, hdrop⟩

theorem Typed.stays {e : Element} (h : Typed s none e) : e.Stays s last (.of e.type) :=
  .inl ⟨none, nofun, h, fun _ hv => hv⟩

theorem stays_args {args : List Element} (h : ∀ x ∈ args, Typed s none x) :
    KindAll (fun last e a => e.Stays s last a) last args (args.map fun x => .of x.type) :=
  .of_forall (fun x hx _ => (h x hx).stays) last

/-- Arguments that hold values of types are genuine. -/
theorem genuine_of_holds {args : List Element} {vs : List Value}
    (h : List.Forall₂ (Slot.Holds s.host) (args.map fun x => .of x.type) vs) : ∀ v ∈ vs,
    v.Genuine s.host := by
  induction vs generalizing args with
  | nil => exact fun v hv => nomatch hv
  | cons w vs ih =>
    cases args with
    | nil => cases h
    | cons x args =>
      cases h with
      | cons hw hvs =>
        intro v hv
        rcases List.mem_cons.1 hv with rfl | hv
        · exact hw.2
        · exact ih hvs v hv

/-- A literal is a value of its type. -/
theorem plain_has {v : Value} (h : v.Plain) : s.host.Has (v.type?.getD .null) v := by
  cases v with
  | nil => exact ⟨.inr rfl, trivial⟩
  | bool | int | char | single | double | decimal | string | dateTime | timeSpan =>
    exact Host.has_of_type rfl rfl trivial
  | _ => cases h

/-- Reading a member of what a place is for. -/
theorem acts_read (honest : s.Honest) (suits : env.Suits s) {T : Ty} {m : Member} {b : Slot}
    (hm : m ∈ s.host.members T)
    (ha : ∀ v, s.host.Has (m.valueType?.getD .null) v → a.Holds s.host v)
    (hb : ∀ v, b.Holds s.host v → s.host.Serves T v) (l : List Slot) :
    (typing s env).acts (.read m) (b :: l) (a :: l) := by
  intro stack hs
  cases hs with
  | cons hv hrest =>
    refine ⟨trivial, fun stack' tally tally' hrun => ?_⟩
    rw [Instruction.perform, suits.host] at hrun
    exact holds_pushed (Host.readMember_gives honest.host (hb _ hv) hm) ha hrest hrun

/-- Calling a method of what a place is for. -/
theorem acts_invoke (honest : s.Honest) (suits : env.Suits s) {T : Ty} {name : String}
    {signature : Signature} {spread : Bool} {args : List Element} {b : Slot}
    (hm : .method name signature ∈ s.host.members T)
    (hvalue : signature.value? = some t) (ha : ∀ v, s.host.Has t v → a.Holds s.host v)
    (hb : ∀ v, b.Holds s.host v → s.host.Serves T v) (l : List Slot) :
    (typing s env).acts (.invoke name signature spread args.length)
      ((args.map fun x => Slot.of x.type).reverse ++ b :: l) (a :: l) := by
  intro stack hs
  refine ⟨trivial, fun stack' tally tally' hrun => ?_⟩
  obtain ⟨⟨vs, rest⟩, u, hpop, hp⟩ := run_bind_eq_ok.1 hrun
  rw [← List.length_map (f := fun x : Element => Slot.of x.type)] at hpop
  obtain ⟨hvs, hrest⟩ := holds_popMany hs hpop
  cases hrest with
  | cons hv hrest =>
    simp only [suits.host] at hp
    exact holds_pushed (Host.callMethod_gives honest.host (hb _ hv) (Host.mem_methodSet hm)
      (genuine_of_holds hvs)
      (Signature.results_head_of_value? hvalue)) ha hrest hp

/-- The kinds of elements agree with what their instructions do to the types on the stack. -/
theorem stays_kinding (honest : s.Honest) (suits : env.Suits s) :
    Kinding (typing s env) (fun last e a => e.Stays s last a) where
  constant h := by
    rcases h with ⟨t, -, h, ha⟩ | ⟨o, ho, -⟩
    · cases h with
      | literal numeral hv => exact ha _ (plain_has hv)
      | imported hv => exact ha _ (honest.imports _ hv)
    · cases ho
  convertNone h := by
    rcases h with ⟨t, ht, h, ha⟩ | ⟨o, ho, -⟩
    · cases h with
      | convert he hb => exact .inl ⟨t, ht, he, fun v hv => ha v ⟨hb.fits hv.1, hv.2⟩⟩
    · cases ho
  convertSome h := by
    rcases h with ⟨t, ht, h, ha⟩ | ⟨o, ho, -⟩
    · cases h with
      | convert he hb =>
        refine ⟨.of _, .inl ⟨t, ht, he, fun _ hv => hv⟩, fun l stack hs => ?_⟩
        cases hs with
        | cons hv hrest =>
          refine ⟨trivial, fun stack' tally tally' hrun => ?_⟩
          rw [Instruction.perform, suits.host] at hrun
          exact holds_pushed (Conversion.gives honest.host honest.operators hb.leads hv) ha hrest
            hrun
    · cases ho
  unary h := by
    rcases h with ⟨t, ht, h, ha⟩ | ⟨o, ho, -⟩
    · cases h with
      | unary he hy =>
        refine ⟨.of _, .inl ⟨t, ht, he, fun _ hv => hv⟩, fun l stack hs => ?_⟩
        cases hs with
        | cons hv hrest =>
          obtain ⟨hasserts, hgives⟩ := Unary.sound honest.host honest.operators hy hv
          refine ⟨⟨_, _, rfl, hasserts⟩, fun stack' tally tally' hrun => ?_⟩
          rw [Instruction.perform, suits.host] at hrun
          exact holds_pushed hgives ha hrest hrun
    · cases ho
  binary h := by
    rcases h with ⟨t, ht, h, ha⟩ | ⟨o, ho, -⟩
    · cases h with
      | binary hx hy hyields =>
        refine ⟨.of _, .of _, .inl ⟨t, ht, hx, fun _ hv => hv⟩, hy.stays, fun l stack hs => ?_⟩
        cases hs with
        | cons hw hs =>
          cases hs with
          | cons hv hrest =>
            obtain ⟨hasserts, hgives⟩ := Binary.sound honest.host honest.operators hyields hv hw
            refine ⟨⟨_, _, _, rfl, hasserts⟩, fun stack' tally tally' hrun => ?_⟩
            rw [Instruction.perform, suits.host] at hrun
            exact holds_pushed hgives ha hrest hrun
    · cases ho
  choose h := by
    rcases h with ⟨t, ht, h, ha⟩ | ⟨o, ho, -⟩
    · cases h with
      | choose hc hx hy cond whenTrue whenFalse =>
        refine ⟨⟨.of .bool, ⟨.bool, rfl, .inl rfl⟩, .inl ⟨t, ht, hc, fun v hv => cond ▸ hv⟩⟩,
          .inl ⟨t, ht, hx, fun v hv => ha v (whenTrue ▸ hv)⟩,
          .inl ⟨t, ht, hy, fun v hv => ha v (whenFalse ▸ hv)⟩⟩
    · cases ho
  logic h := by
    rcases h with ⟨t, ht, h, ha⟩ | ⟨o, ho, -⟩
    · cases h with
      | logic h bool =>
        refine ⟨fun b => ha _ (Host.has_of_type rfl rfl trivial), fun e he =>
          ⟨?_, .of .bool, ⟨.bool, rfl, .inl rfl⟩, ?_⟩⟩
        · exact .inl ⟨t, ht, h e he, fun v hv => ha v (by rwa [bool e he] at hv)⟩
        · exact .inl ⟨t, ht, h e he, fun v hv => bool e he ▸ hv⟩
    · cases ho
  duplicate h l hl := by
    rcases h with ⟨t, ht, h, ha⟩ | ⟨o, ho, -⟩
    · cases h with
      | duplicate =>
        obtain ⟨b, hb, hsub⟩ := ht _ rfl
        intro stack hs
        refine ⟨trivial, fun stack' tally tally' hrun => ?_⟩
        cases hs with
        | nil =>
          rw [hb] at hl
          cases hl
        | cons hv hrest =>
          rw [hb] at hl
          cases hl
          obtain ⟨rfl, -⟩ := run_pure_eq_ok.1 hrun
          exact .cons (ha _ (hsub _ hv)) (.cons hv hrest)
    · cases ho
  among h := by
    rcases h with ⟨t, ht, h, ha⟩ | ⟨o, ho, -⟩
    · cases h with
      | among ho htests compared =>
        refine ⟨fun b => ha _ (Host.has_of_type rfl rfl trivial), .of _,
          .inl ⟨t, ht, ho, fun _ hv => hv⟩, fun e he =>
            ⟨.of e.type, ⟨e.type, rfl, compared e he⟩,
              .inl ⟨some _, fun u hu => ?_, htests e he, fun _ hv => hv⟩⟩⟩
        cases hu
        exact ⟨_, rfl, fun _ hv => hv⟩
    · cases ho
  contains h := by
    rcases h with ⟨t, ht, h, ha⟩ | ⟨o, ho, -⟩
    · cases h with
      | contains hc ho hsearched =>
        refine ⟨.of _, .of _, .inl ⟨t, ht, hc, fun _ hv => hv⟩, ho.stays, fun l stack hs => ?_⟩
        cases hs with
        | cons hw hs =>
          cases hs with
          | cons hv hrest =>
            refine ⟨⟨_, _, _, rfl, searchable_of_has hsearched hv⟩,
              fun stack' tally tally' hrun => ?_⟩
            obtain ⟨found, u, -, hp⟩ := run_bind_eq_ok.1 hrun
            obtain ⟨rfl, -⟩ := run_pure_eq_ok.1 hp
            exact .cons (ha _ (Host.has_of_type rfl rfl trivial)) hrest
    · cases ho
  owner h l stack hs := by
    rcases h with ⟨t, ht, h, ha⟩ | ⟨o, ho, howner, rfl⟩
    · cases h
    · refine ⟨trivial, fun stack' tally tally' hrun => ?_⟩
      obtain ⟨rfl, -⟩ := run_pure_eq_ok.1 hrun
      exact .cons (suits.owner o howner) hs
  read h := by
    rcases h with ⟨t, ht, h, ha⟩ | ⟨o, ho, -⟩
    · cases h with
      | read hr hm _ =>
        exact ⟨.of _, .inl ⟨t, ht, hr, fun _ hv => hv⟩, acts_read honest suits hm ha fun v hv =>
          Host.Has.serves hv⟩
      | readOwner howner hm _ =>
        exact ⟨.owner _, .inr ⟨_, rfl, howner, rfl⟩, acts_read honest suits hm ha fun v hv => hv⟩
    · cases ho
  call h := by
    rcases h with ⟨t, ht, h, ha⟩ | ⟨o, ho, -⟩
    · cases h with
      | call hf hvalue hargs =>
        refine ⟨_, stays_args hargs, fun l stack hs =>
          ⟨trivial, fun stack' tally tally' hrun => ?_⟩⟩
        obtain ⟨⟨vs, rest⟩, u, hpop, hp⟩ := run_bind_eq_ok.1 hrun
        rw [← List.length_map (f := fun x : Element => Slot.of x.type)] at hpop
        obtain ⟨hvs, hrest⟩ := holds_popMany hs hpop
        rw [suits.host] at hp
        refine holds_pushed (Host.callFunction_gives honest.host (honest.imports _ hf)
          (genuine_of_holds hvs)
          (Signature.results_head_of_value? hvalue)) ha hrest hp
    · cases ho
  invoke h := by
    rcases h with ⟨t, ht, h, ha⟩ | ⟨o, ho, -⟩
    · cases h with
      | invoke hr hm hvalue hargs =>
        exact ⟨.of _, _, .inl ⟨t, ht, hr, fun _ hv => hv⟩, stays_args hargs,
          acts_invoke honest suits hm hvalue ha fun v hv => Host.Has.serves hv⟩
      | invokeOwner howner hm hvalue hargs =>
        exact ⟨.owner _, _, .inr ⟨_, rfl, howner, rfl⟩, stays_args hargs,
          acts_invoke honest suits hm hvalue ha fun v hv => hv⟩
    · cases ho
  load h l stack hs := by
    rcases h with ⟨t, ht, h, ha⟩ | ⟨o, ho, -⟩
    · refine ⟨trivial, fun stack' tally tally' hrun => ?_⟩
      exact holds_pushed (suits.load _ _) ha hs hrun
    · cases ho
  demand h := by
    rcases h with ⟨t, ht, h, ha⟩ | ⟨o, ho, -⟩
    · cases h with
      | demand hargs =>
        refine ⟨_, stays_args hargs, fun l stack hs =>
          ⟨trivial, fun stack' tally tally' hrun => ?_⟩⟩
        obtain ⟨⟨vs, rest⟩, u, hpop, hp⟩ := run_bind_eq_ok.1 hrun
        rw [← List.length_map (f := fun x : Element => Slot.of x.type)] at hpop
        obtain ⟨hvs, hrest⟩ := holds_popMany hs hpop
        exact holds_pushed (suits.demand _ _ _ (genuine_of_holds hvs)) ha hrest hp
    · cases ho
  index h := by
    rcases h with ⟨t, ht, h, ha⟩ | ⟨o, ho, -⟩
    · cases h with
      | index hc hi hitem =>
        refine ⟨.of _, .of _, .inl ⟨t, ht, hc, fun _ hv => hv⟩, hi.stays, fun l stack hs => ?_⟩
        cases hs with
        | cons hw hs =>
          cases hs with
          | cons hv hrest =>
            refine ⟨trivial, fun stack' tally tally' hrun => ?_⟩
            rw [Instruction.perform, suits.host] at hrun
            exact holds_pushed (Host.item_gives hitem hv _) ha hrest hrun
    · cases ho

/-- Every step a program comes to finds values of the types it asks for. Only a branch may not: if
it decides on what an overload of equality gives that is not boolean. -/
theorem Typed.asserts (honest : s.Honest) (suits : env.Suits s) {e : Element} (h : Typed s none e)
    {tally tally' : Tally} {i : Nat} {stack : Stack} {x : Step Nat Instruction}
    (hreach : (assembled (e.body 0)).Reaches (Instruction.perform env) tally i stack tally')
    (hx : (assembled (e.body 0)).steps[i]? = some x) (hfails : ¬x.Asserts s.host stack) :
    ∃ f t v rest wanted target, (.equal, f) ∈ s.operators.binary ∧
      f.signature.results.head? = some t ∧ t ≠ .bool ∧
      x = .jumpIf wanted target ∧ stack = v :: rest ∧ s.host.Fits t v := by
  obtain ⟨layout, hchart, hstart, -⟩ := Element.charted (stays_kinding honest suits) h.stays
  obtain ⟨-, hstack⟩ := hchart.reaches (typing_sound s env) hstart hreach
  cases x with
  | push | drop | jump => exact absurd trivial hfails
  | act a => exact absurd (hchart.falls i _ hx rfl stack hstack).1 hfails
  | jumpIf wanted target =>
    obtain ⟨b, ⟨t, rfl, hcompared⟩, hlayout⟩ := hchart.falls i _ hx rfl
    rw [hlayout] at hstack
    cases hstack with
    | @cons _ v _ rest hv _ =>
      have hv : s.host.Has t v := hv
      have hbool : t ≠ .bool := by
        rintro rfl
        obtain ⟨b, rfl⟩ := hv.form
        exact hfails ⟨b, rest, rfl⟩
      rcases hcompared with rfl | ⟨f, hf, hresult⟩
      · exact absurd rfl hbool
      · exact ⟨f, t, v, rest, wanted, target, hf, hresult, hbool, rfl, rfl, hv.1⟩

/-- A run that ends gives a value of the type of its element. -/
theorem Typed.gives (honest : s.Honest) (suits : env.Suits s) {e : Element} (h : Typed s none e) :
    s.host.Gives e.type (runProgram env (assembled (e.body 0))) := by
  intro tally tally' v hrun
  obtain ⟨layout, hchart, hstart, hend⟩ := Element.charted (stays_kinding honest suits) h.stays
  obtain ⟨stack, u, hstack, hresult⟩ := run_bind_eq_ok.1 hrun
  obtain ⟨j, hreach, hj⟩ := Program.runFrom_reaches .start hstack
  obtain ⟨hle, hholds⟩ := hchart.reaches (typing_sound s env) hstart hreach
  have hge : (assembled (e.body 0)).size ≤ j := Array.getElem?_eq_none_iff.1 hj
  rw [Nat.le_antisymm hle hge, hend] at hholds
  cases hholds with
  | cons hv hnil =>
    cases hnil
    obtain ⟨rfl, -⟩ := run_pure_eq_ok.1 hresult
    exact hv

/-- So does the evaluation of the element. -/
theorem Typed.eval_gives (honest : s.Honest) (suits : env.Suits s) {e : Element}
    (h : Typed s none e) :
    s.host.Gives e.type (e.eval env none) := by
  rw [← Element.runProgram_assembled]
  exact h.gives honest suits

end Stays

end Formulary
