import Mathlib.Data.List.Nodup
import Formulary.Proofs.Host.Honest

/-!
# Calls

What the host hands over for a call or a read is of the declared type: the arguments it gets are
genuine and of the types of the parameters, a method found by name is the one that was meant, and a
field lies where its path leads.
-/

namespace Formulary

open Machine

variable {host : Host} {t : Ty}

namespace Value

theorem ofInner?_genuine {n : Int} {v : Value} (h : ofInner? n t = some v) : v.Genuine host := by
  unfold ofInner? at h
  split at h <;> cases h <;> trivial

theorem toNumeric_genuine {v : Value} (h : v.Genuine host) : (v.toNumeric t).Genuine host := by
  unfold toNumeric
  split
  · split <;> trivial
  · trivial
  · trivial
  · trivial
  · unfold toDecimal
    split <;> trivial
  · exact h

/-- What the host converts on its own stays genuine. -/
theorem adapted_genuine {v : Value} (h : v.Genuine host) : (v.adapted t).Genuine host := by
  have hinner : ∀ n u, ((ofInner? n u).getD v).Genuine host := by
    intro n u
    cases hn : ofInner? n u with
    | none => exact h
    | some w => exact ofInner?_genuine hn
  unfold adapted
  split
  · exact h
  · split
    · exact hinner _ _
    · split
      · split
        · exact toNumeric_genuine h
        · exact toNumeric_genuine h
        · exact toNumeric_genuine h
        · exact h
        · exact hinner _ _
      · split
        · exact toNumeric_genuine h
        · exact toNumeric_genuine h
        · exact toNumeric_genuine h
        · exact h
        · exact hinner _ _
      · split
        · exact h.relabel _
        · exact h

end Value

/-- An argument as a parameter receives it: no value is the zero value. -/
def Host.given (host : Host) (p : Ty) (a : Value) : Value :=
  if a.type?.isNone then host.zero p else a

theorem Host.given_genuine (honest : host.Honest) {a : Value} (h : a.Genuine host) (p : Ty) :
    (host.given p a).Genuine host := by
  obtain ⟨rank, ranked⟩ := honest.ranked
  unfold given
  split
  · exact (zero_has ranked p).2
  · exact h

/-- An argument that fits a parameter can be stored there. -/
theorem Host.accepts_given (honest : host.Honest) {p : Ty} {a : Value} (h : host.Fits p a) :
    host.accepts p (host.given p a) = true := by
  obtain ⟨rank, ranked⟩ := honest.ranked
  unfold given
  split
  · have hzero := (zero_has ranked p).1
    refine hzero.accepts fun hnone => ?_
    unfold Fits at hzero
    rw [hnone] at hzero
    rcases hzero with hp | rfl
    · exact hp
    · cases hnone
  · rename_i ha
    exact h.accepts fun hnone => absurd (by rw [hnone]; rfl) ha

theorem forall₂_of_all {α β : Type} {p : α → β → Bool} {as : List α} {bs : List β}
    (hlength : as.length = bs.length) (h : ((as.zip bs).all fun x => p x.1 x.2) = true) :
    List.Forall₂ (fun b a => p a b = true) bs as := by
  refine List.Forall₂.flip (List.forall₂_iff_zip.2 ⟨hlength, fun hab => ?_⟩)
  exact List.all_eq_true.1 h _ hab

/-- Overloads and conversions give values of their types. -/
theorem Host.invoke_gives (honest : host.Honest) {f : Function} (hf : f.Honest host)
    {args : List Value}
    (hargs : ∀ a ∈ args, a.Genuine host) (ht : f.signature.results.head? = some t) :
    host.Gives t (host.invoke f args) := by
  unfold invoke
  simp only
  split
  · rename_i haccepts
    simp only [Bool.and_eq_true, beq_iff_eq] at haccepts
    obtain ⟨hlength, hall⟩ := haccepts
    refine hf _ t ⟨forall₂_of_all (by simp [hlength]) hall, fun a ha => ?_⟩ ht
    obtain ⟨⟨b, p⟩, hb, rfl⟩ := List.mem_map.1 ha
    exact given_genuine honest (hargs b (List.of_mem_zip hb).1) p
  · exact .breakdown

section Arrange

variable {s : Signature} {spread : Bool} {args : List Value}

theorem exists_of_mem_mapM_some {α β : Type} {f : α → Option β} {l : List α} {ys : List β}
    (h : l.mapM f = some ys) :
    ∀ y ∈ ys, ∃ x ∈ l, f x = some y := by
  induction l generalizing ys with
  | nil =>
    cases h
    exact fun y hy => nomatch hy
  | cons x l ih =>
    rw [List.mapM_cons] at h
    obtain ⟨b, hb, h⟩ := Option.bind_eq_some_iff.1 h
    obtain ⟨rest, hrest, h⟩ := Option.bind_eq_some_iff.1 h
    cases h
    intro y hy
    rcases List.mem_cons.1 hy with rfl | hy
    · exact ⟨x, List.mem_cons_self, hb⟩
    · obtain ⟨z, hz, hf⟩ := ih hrest y hy
      exact ⟨z, List.mem_cons_of_mem _ hz, hf⟩

/-- Arguments adapted to their parameters stay genuine. -/
theorem Host.adapted_args_genuine (honest : host.Honest) {given : List Value}
    (hargs : ∀ a ∈ args, a.Genuine host)
    (h : args.zipIdx.mapM (fun entry => (s.paramType? entry.2).map fun t =>
      if entry.1.type?.isNone then host.zero t else if t.isInterface then entry.1
      else entry.1.adapted t) = some given) :
    ∀ a ∈ given, a.Genuine host := by
  obtain ⟨rank, ranked⟩ := honest.ranked
  intro a ha
  obtain ⟨⟨b, i⟩, hb, hmap⟩ := exists_of_mem_mapM_some h a ha
  obtain ⟨p, -, rfl⟩ := Option.map_eq_some_iff.1 hmap
  have hgenuine : b.Genuine host := hargs b (List.fst_mem_of_mem_zipIdx hb)
  split
  · exact (zero_has ranked p).2
  · split
    · exact hgenuine
    · exact Value.adapted_genuine hgenuine

/-- Trailing arguments as one slice. -/
theorem ofItems_genuine {rest : List Value} (hgenuine : ∀ a ∈ rest, a.Genuine host)
    (haccepts : rest.all (host.accepts t) = true) : (Value.ofItems t rest).Genuine host :=
  ⟨fun v hv => Host.fits_of_accepts (hgenuine v hv) (List.all_eq_true.1 haccepts v hv),
    Value.allGenuine_iff.2 hgenuine⟩

/-- The arguments a function receives are of the types of its parameters. -/
theorem Host.arrange_takes (honest : host.Honest) (hargs : ∀ a ∈ args, a.Genuine host)
    {given : List Value}
    {tally tally' : Tally} (h : (host.arrange s spread args).run tally = (.ok given, tally')) :
    s.Takes host given := by
  unfold arrange at h
  simp only at h
  split at h
  · exact absurd h run_breakdown_ne_ok
  · rename_i adapted hadapted
    have hgenuine := adapted_args_genuine honest hargs hadapted
    split at h
    · split at h
      · rename_i element hlast
        split at h
        · exact absurd h run_breakdown_ne_ok
        · rename_i hfits
          simp only [Bool.or_eq_true, not_or, Bool.not_eq_true', decide_eq_true_eq,
            Bool.not_eq_false] at hfits
          obtain ⟨⟨hlength, hrest⟩, hfixed⟩ := hfits
          obtain ⟨rfl, -⟩ := run_pure_eq_ok.1 h
          obtain ⟨front, hfront⟩ : ∃ front, s.params = front ++ [Ty.slice element] :=
            ⟨_, (List.dropLast_append_getLast? _ hlast).symm⟩
          have hn : s.params.length - 1 = front.length := by simp [hfront]
          rw [hn] at hlength hrest hfixed ⊢
          have htake : (adapted.take front.length).length = front.length := by
            rw [List.length_take]
            omega
          have hzip : (adapted.take front.length).zip s.params =
              (adapted.take front.length).zip front := by
            have happend : (adapted.take front.length ++ []).zip (front ++ [Ty.slice element]) =
                (adapted.take front.length).zip front ++ [].zip [Ty.slice element] :=
                  List.zip_append htake
            rwa [List.append_nil, ← hfront, List.zip_nil_left, List.append_nil] at happend
          rw [hzip] at hfixed
          refine ⟨?_, fun a ha => ?_⟩
          · rw [hfront]
            refine List.rel_append (forall₂_of_all htake hfixed) (.cons ?_ .nil)
            exact Host.suits_refl _
          · rcases List.mem_append.1 ha with ha | ha
            · exact hgenuine a (List.mem_of_mem_take ha)
            · rw [List.mem_singleton.1 ha]
              exact ofItems_genuine (fun a ha => hgenuine a (List.mem_of_mem_drop ha)) hrest
      · exact absurd h run_breakdown_ne_ok
    · split at h
      · rename_i haccepts
        simp only [Bool.and_eq_true, beq_iff_eq] at haccepts
        obtain ⟨rfl, -⟩ := run_pure_eq_ok.1 h
        exact ⟨forall₂_of_all haccepts.1 haccepts.2, hgenuine⟩
      · exact absurd h run_breakdown_ne_ok

end Arrange

/-- A function gives a value of its type. -/
theorem Host.callFunction_gives (honest : host.Honest) {f : Function} (hf : f.Honest host)
    {args : List Value}
    {spread : Bool} (hargs : ∀ a ∈ args, a.Genuine host) (ht : f.signature.results.head? = some t) :
    host.Gives t (host.callFunction f args spread) :=
  .bind fun _ _ _ hgiven => hf _ t (arrange_takes honest hargs hgiven) ht

/-- The type of the value a function gives is that of its first result. -/
theorem Signature.results_head_of_value? {s : Signature} (h : s.value? = some t) :
    s.results.head? = some t := by
  unfold value? at h
  split at h
  · split at h
    · cases h
    · rename_i hresults _
      cases h
      rw [hresults]
      rfl
  · split at h
    · rename_i hresults _
      cases h
      rw [hresults]
      rfl
    · cases h
  · cases h

/-- A value on which the members of a type can be asked for: none, or one of a type that is made of
the same and offers its methods, unless it has lost all methods with its label. -/
def Host.Serves (host : Host) (t : Ty) (v : Value) : Prop :=
  v.Genuine host ∧ ∀ u, v.type? = some u →
    (t.isInterface = false → u.underlying = t.underlying) ∧
      ((∀ m ∈ host.methodSet t, m ∈ host.methodSet u) ∨ host.methodSet u = [])

/-- The values of a type serve its members. -/
theorem Host.Has.serves {v : Value} (h : host.Has t v) : host.Serves t v := by
  obtain ⟨hfits, hgenuine⟩ := h
  refine ⟨hgenuine, fun u hu => ?_⟩
  unfold Host.Fits at hfits
  rw [hu] at hfits
  by_cases ht : t.isInterface = true
  · simp only [ht, if_true] at hfits
    refine ⟨fun h => absurd (ht.symm.trans h) nofun, .inl fun m hm => ?_⟩
    simp only [Host.implements, Bool.and_eq_true, List.all_eq_true, List.contains_iff_mem] at hfits
    exact hfits.2 m hm
  · simp only [ht] at hfits
    exact ⟨fun _ => hfits ▸ rfl, .inl fun m hm => hfits ▸ hm⟩

/-- Of two types that are made of the same, one without a label, the other one has the methods of
the first or none. -/
theorem Host.methodSet_of_underlying {u : Ty} (h : u.underlying = t.underlying)
    (hplain : u.isUnlabelled = true ∨ t.isUnlabelled = true) :
    (∀ m ∈ host.methodSet t, m ∈ host.methodSet u) ∨ host.methodSet u = [] := by
  have hrelabel := Ty.relabel_of_underlying h
  generalize t.label? = label at hrelabel
  subst hrelabel
  cases u with
  | pointer target own =>
    cases own with
    | some => exact .inr rfl
    | none =>
      cases label with
      | none => exact .inl fun m hm => hm
      | some => exact .inl fun m hm => absurd hm List.not_mem_nil
  | slice element own | array n element own | map key element own =>
    cases own with
    | none => exact .inr rfl
    | some =>
      cases label with
      | none => exact .inl fun m hm => absurd hm List.not_mem_nil
      | some => simp [Ty.isUnlabelled, Ty.relabel] at hplain
  | _ => exact .inl fun m hm => hm

/-- The type whose methods are called on values of a type. -/
def Ty.base : Ty → Ty
  | .pointer t _ => t
  | t => t

/-- What a type offers are methods of its base, and it is this type or a pointer to it. -/
theorem Host.exists_method {u : Ty} {name : String} {s : Signature} (hu : u.isInterface = false)
    (h : (name, s) ∈ host.methodSet u) :
    (∃ m ∈ host.methods u.base, m.name = name ∧ m.signature = s) ∧
      (u = u.base ∨ u = .pointer u.base) := by
  have hmap : ∀ ms : List Method, (name, s) ∈ ms.map (fun m => (m.name, m.signature)) →
      ∃ m ∈ ms, m.name = name ∧ m.signature = s := by
    intro ms hms
    obtain ⟨m, hm, heq⟩ := List.mem_map.1 hms
    injection heq with hname hsignature
    exact ⟨m, hm, hname, hsignature⟩
  have hbare : (name, s) ∈ ((host.methods u).filter fun m => !m.needsPointer).map (fun m =>
    (m.name, m.signature)) →
      ∃ m ∈ host.methods u, m.name = name ∧ m.signature = s := by
    intro hm
    obtain ⟨m, hm, hmeth⟩ := hmap _ hm
    exact ⟨m, (List.mem_filter.1 hm).1, hmeth⟩
  cases u with
  | object | face => cases hu
  | pointer t label =>
    cases label with
    | some => cases h
    | none =>
      refine ⟨?_, .inr rfl⟩
      cases t with
      | pointer | object | face => cases h
      | _ => exact hmap _ h
  | slice _ label | array _ _ label | map _ _ label =>
    cases label with
    | none => cases h
    | some => exact ⟨hbare h, .inl rfl⟩
  | _ => exact ⟨hbare h, .inl rfl⟩

/-- Methods of different names: the one found by its name is the one that was meant. -/
theorem Host.Honest.method_unique (honest : host.Honest) {base : Ty} {m m' : Method}
    (h : m ∈ host.methods base)
    (h' : m' ∈ host.methods base) (hname : m.name = m'.name) : m = m' :=
  List.inj_on_of_nodup_map (honest.distinct base) h h' hname

/-- A method gives a value of its type. -/
theorem Host.callMethod_gives (honest : host.Honest) {T : Ty} {name : String}
    {s : Signature} {recv : Value} {args : List Value} {spread : Bool} (serves : host.Serves T recv)
    (hm : (name, s) ∈ host.methodSet T)
    (hargs : ∀ a ∈ args, a.Genuine host) (ht : s.results.head? = some t) :
    host.Gives t (host.callMethod name s recv args spread) := by
  obtain ⟨hgenuine, hserves⟩ := serves
  unfold callMethod
  split
  · exact .failed
  · exact .failed
  · rename_i hnil hpointer
    have htyped : ∃ u, recv.type? = some u := by
      cases recv with
      | nil => exact absurd rfl hnil
      | _ => exact ⟨_, rfl⟩
    obtain ⟨u, hu⟩ := htyped
    dsimp only
    split
    · rename_i found m hoffered hfound
      rw [hu] at hoffered
      have hm' : (name, s) ∈ host.methodSet u := by
        rcases (hserves u hu).2 with hoffers | hnone
        · exact hoffers _ hm
        · rw [Option.getD_some, hnone] at hoffered
          cases hoffered
      obtain ⟨⟨m', hmeant, hname, rfl⟩, hrecv⟩ := exists_method (hgenuine.not_interface hu) hm'
      -- the method of the value's base is called, which is the one that was meant
      have hbase : m ∈ host.methods u.base := by
        have hmem := List.mem_of_find?_eq_some hfound
        cases recv with
        | nil => cases hu
        | missing v =>
          cases hu
          cases u with
          | pointer t label => exact absurd rfl (hpointer t label)
          | _ => exact hmem
        | _ =>
          cases hu
          exact hmem
      obtain rfl : m = m' := honest.method_unique hbase hmeant
        ((by simpa using List.find?_some hfound : m.name = name).trans hname.symm)
      have htype : recv.type? = some u.base ∨ recv.type? = some (.pointer u.base) :=
        hrecv.imp (fun hbare => hu.trans (congrArg some hbare)) fun hpointer =>
          hu.trans (congrArg some hpointer)
      exact .bind fun given _ _ hgiven =>
        honest.methods _ m hmeant recv given t hgenuine htype (arrange_takes honest hargs hgiven) ht
    · exact .failed

/-- A value of a record's type is a record. -/
theorem Value.eq_record {v : Value} {name : String} (h : v.Genuine host)
    (ht : v.type? = some (.record name)) :
    ∃ fields, v = .record name fields := by
  cases v with
  | record n fields =>
    cases ht
    exact ⟨fields, rfl⟩
  | missing u =>
    cases ht
    cases h
  | nil => cases ht
  | _ => cases ht

/-- What stands at the place of a field is of its type. -/
theorem Host.field_has {name : String} {fields : List Value}
    (h : (Value.record name fields).Genuine host) {f : Field}
    {i : Nat} (hf : (f, i) ∈ (host.fields name).zipIdx) {v : Value} (hv : fields[i]? = some v) :
    host.Has f.type v := by
  have hget : (host.fields name)[i]? = some f := List.mem_zipIdx_iff_getElem?.1 hf
  obtain ⟨hi, rfl⟩ := List.getElem?_eq_some_iff.1 hget
  obtain ⟨hj, rfl⟩ := List.getElem?_eq_some_iff.1 hv
  exact ⟨(List.forall₂_iff_get.1 h.1).2 i hi hj, Value.allGenuine_iff.1 h.2 _ (List.getElem_mem hj)⟩

/-- The positions that lead from a record to a field, of its own or of a record embedded in it. -/
inductive Host.Leads (host : Host) : String → Field → List Nat → Prop
  | own {name : String} {f : Field} {i : Nat} (h : (f, i) ∈ (host.fields name).zipIdx) :
      Leads host name f [i]
  | within {name inner : String} {f g : Field} {i : Nat} {path : List Nat}
      (h : (g, i) ∈ (host.fields name).zipIdx)
      (hinner : recordName? g.type = some inner) (hpath : Leads host inner f path) :
      Leads host name f (i :: path)

namespace Host

theorem mem_hide {name : String} {seen : List Sighting} {x : Sighting} (h : x ∈ hide name seen) :
    ∃ y ∈ seen, y.field = x.field ∧ y.path = x.path := by
  induction seen with
  | nil => cases h
  | cons y seen ih =>
    rw [hide] at h
    split at h
    · rcases List.mem_cons.1 h with rfl | h
      · exact ⟨y, List.mem_cons_self, rfl, rfl⟩
      · exact ⟨x, List.mem_cons_of_mem _ h, rfl, rfl⟩
    · rcases List.mem_cons.1 h with rfl | h
      · exact ⟨x, List.mem_cons_self, rfl, rfl⟩
      · obtain ⟨z, hz, heq⟩ := ih h
        exact ⟨z, List.mem_cons_of_mem _ hz, heq⟩

/-- Of the sightings with one more, each is this one or was there, hidden or not. -/
theorem mem_sight {f : Field} {path : List Nat} {seen : List Sighting} {x : Sighting}
    (h : x ∈ sight f path seen) :
    x.field = f ∧ x.path = path ∨ ∃ y ∈ seen, y.field = x.field ∧ y.path = x.path := by
  unfold sight at h
  split at h
  · rcases List.mem_cons.1 h with rfl | h
    · exact .inl ⟨rfl, rfl⟩
    · exact .inr ⟨x, h, rfl, rfl⟩
  · split at h
    · exact .inr (mem_hide h)
    · split at h
      · rcases List.mem_cons.1 h with rfl | h
        · exact .inl ⟨rfl, rfl⟩
        · exact .inr (mem_hide h)
      · exact .inr ⟨x, h, rfl, rfl⟩

/-- Whatever is seen on a walk from a record lies where its path leads. -/
theorem leads_of_mem_walk {root : String} {fuel : Nat} {visiting : List String}
    {path : List Nat} {name : String}
    {seen : List Sighting} (hseen : ∀ x ∈ seen, host.Leads root x.field x.path)
    (hpath : ∀ f rest, host.Leads name f rest → host.Leads root f (path ++ rest)) :
    ∀ x ∈ host.walk fuel visiting path name seen, host.Leads root x.field x.path := by
  induction fuel generalizing visiting path name seen with
  | zero => exact hseen
  | succ fuel ih =>
    rw [walk]
    split
    · exact hseen
    · refine List.foldlRecOn _ _ (motive := fun seen : List Sighting =>
        ∀ x ∈ seen, host.Leads root x.field x.path) hseen ?_
      rintro seen hseen ⟨f, i⟩ hf
      have hsight : ∀ x ∈ sight f (path ++ [i]) seen, host.Leads root x.field x.path := by
        intro x hx
        obtain ⟨hfield, hsame⟩ | ⟨y, hy, hfield, hsame⟩ := mem_sight hx
        · rw [hfield, hsame]
          exact hpath f [i] (.own hf)
        · rw [← hfield, ← hsame]
          exact hseen y hy
      dsimp only
      split
      · rename_i inner _ hinner
        refine ih hsight fun g rest hg => ?_
        rw [List.append_assoc]
        exact hpath g (i :: rest) (.within hf hinner hg)
      · exact hsight

theorem leads_of_mem_visibleFields {name : String} {x : Sighting}
    (h : x ∈ host.visibleFields name) :
    host.Leads name x.field x.path := by
  have hnone : ∀ x ∈ ([] : List Sighting), host.Leads name x.field x.path := fun x hx => nomatch hx
  exact leads_of_mem_walk hnone (fun _ _ h => h) x (List.mem_filter.1 (List.mem_reverse.1 h)).1

/-- One step of a path, from a value of a type that has the fields of a record. -/
theorem follow_step {T : Ty} {record name : String} {f : Field} {i : Nat}
    {rest : List Nat} {v : Value} (hrecord : recordName? T = some record) (hv : host.Has T v)
    (hf : (f, i) ∈ (host.fields record).zipIdx)
    (h : ∀ w, host.Has f.type w → host.Gives t (follow name rest w)) :
    host.Gives t (follow name (i :: rest) v) := by
  have hfields : ∀ fields, (Value.record record fields).Genuine host →
      host.Gives t (follow name (i :: rest) (.record record fields)) := by
    intro fields hgenuine
    rw [follow]
    split
    · rename_i w hw
      exact h w (field_has hgenuine hf hw)
    · exact .breakdown
  obtain ⟨hfits, hgenuine⟩ := hv
  have htype : v.type? = some T := by
    refine hfits.type_eq ?_ ?_
    · cases T with
      | object | face => cases hrecord
      | _ => rfl
    · rintro rfl
      cases hrecord
  cases v with
  | record n fields =>
    cases htype
    cases hrecord
    exact hfields fields hgenuine
  | pointer target mark content label =>
    cases htype
    obtain ⟨hinner, hcontent⟩ := hgenuine
    cases content with
    | record n fields =>
      cases target with
      | record m =>
        cases hinner.type_eq rfl nofun
        cases hrecord
        exact hfields fields hcontent
      | dateTime | decimal => cases hinner.type_eq rfl nofun
      | _ => cases hrecord
    | _ => exact .breakdown
  | missing u =>
    cases u with
    | pointer => exact .failed
    | _ => exact .breakdown
  | _ => exact .breakdown

/-- The field at the end of a path is of its type, also through embedded records and pointers to
them. -/
theorem follow_gives {T : Ty} {record name : String} {f : Field} {path : List Nat} {v : Value}
    (hpath : host.Leads record f path) (hrecord : recordName? T = some record) (hv : host.Has T v) :
    host.Gives f.type (follow name path v) := by
  induction hpath generalizing T v with
  | own h => exact follow_step hrecord hv h fun w hw => .pure hw
  | within h hinner _ ih => exact follow_step hrecord hv h fun w hw => ih hinner hw

end Host

/-- The members of a type that are fields and those that are called. -/
theorem Host.mem_members {T : Ty} {m : Member} (h : m ∈ host.members T) :
    m ∈ host.fieldsOf T ∨ ∃ name s, (name, s) ∈ host.methodSet T ∧
      (m = .method name s ∨ m = .property name s ∧ s.value?.isSome = true) := by
  rcases List.mem_append.1 ((List.mergeSort_perm _ _).mem_iff.1 h) with h | h
  · exact .inl h
  · obtain ⟨⟨name, s⟩, hs, hm⟩ := List.mem_flatMap.1 h
    refine .inr ⟨name, s, (List.mem_filter.1 hs).1, ?_⟩
    dsimp only at hm
    split at hm
    · rename_i hproperty
      have hvalue : s.value?.isSome = true := (Bool.and_eq_true_iff.1 hproperty).2
      simpa [hvalue] using hm
    · exact .inl (by simpa using hm)

@[simp] theorem Host.recordName?_underlying (t : Ty) :
    recordName? t.underlying = recordName? t := by
  cases t with
  | pointer target label => cases target <;> rfl
  | _ => rfl

/-- A field is read with a value of its type. -/
theorem Host.readField_gives {T : Ty} {name : String} {path : List Nat} {exported : Bool}
    {tag : Tag} {v : Value}
    (serves : host.Serves T v) (h : .field name t path exported tag ∈ host.fieldsOf T) :
    host.Gives t (readField name path v) := by
  unfold fieldsOf at h
  split at h
  · rename_i record hrecord
    obtain ⟨x, hx, heq⟩ := List.mem_map.1 h
    cases heq
    unfold readField
    split
    · exact .failed
    · rename_i hnil
      obtain ⟨hgenuine, hserves⟩ := serves
      have hplain : T.isInterface = false := by
        cases T with
        | object | face => cases hrecord
        | _ => rfl
      obtain ⟨u, hu⟩ : ∃ u, v.type? = some u := by
        cases v with
        | nil => exact absurd rfl hnil
        | _ => exact ⟨_, rfl⟩
      have hrecord' : recordName? u = some record := by
        rw [← recordName?_underlying, (hserves u hu).1 hplain, recordName?_underlying, hrecord]
      exact follow_gives (leads_of_mem_visibleFields (List.mem_filter.1 hx).1) hrecord'
        ⟨fits_of_type hu (hgenuine.not_interface hu), hgenuine⟩
  · cases h

/-- A member that is read gives a value of its type. -/
theorem Host.readMember_gives (honest : host.Honest) {T : Ty} {m : Member} {v : Value}
    (serves : host.Serves T v)
    (h : m ∈ host.members T) : host.Gives (m.valueType?.getD .null) (host.readMember m v) := by
  rcases mem_members h with h | ⟨name, s, hs, rfl | ⟨rfl, hvalue⟩⟩
  · have hfield : ∃ name t path exported tag, m = .field name t path exported tag := by
      unfold fieldsOf at h
      split at h
      · obtain ⟨⟨f, p⟩, -, rfl⟩ := List.mem_map.1 h
        exact ⟨_, _, _, _, _, rfl⟩
      · cases h
    obtain ⟨name, t', path, exported, tag, rfl⟩ := hfield
    exact readField_gives serves h
  · exact .failed
  · obtain ⟨t, ht⟩ := Option.isSome_iff_exists.1 hvalue
    have hmember : (Member.property name s).valueType? = some t := ht
    rw [hmember]
    exact callMethod_gives honest serves hs (fun a ha => nomatch ha)
      (Signature.results_head_of_value? ht)

/-- The methods among the members of a type are those it offers. -/
theorem Host.mem_methodSet {T : Ty} {name : String} {s : Signature}
    (h : .method name s ∈ host.members T) :
    (name, s) ∈ host.methodSet T := by
  rcases mem_members h with h | ⟨name', s', hs, heq | ⟨heq, -⟩⟩
  · unfold fieldsOf at h
    split at h
    · obtain ⟨x, -, heq⟩ := List.mem_map.1 h
      cases heq
    · cases h
  · cases heq
    exact hs
  · cases heq

end Formulary
