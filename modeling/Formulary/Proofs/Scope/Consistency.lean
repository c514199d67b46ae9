import Mathlib.Data.List.Nodup
import Formulary.Proofs.Text.Characters
import Formulary.Scope.Store

/-!
# Consistent stores

What stands under each key after a change of a store: a definition or an assignment that is accepted
puts one variable under the key of its name, and touches nothing else.

Whatever changes a store sees, its variables stand under the keys of their own names, one under each
key, and what they hold fits the types they were declared with. A variable keeps its declared type
as long as it is in the store.
-/

namespace Formulary

/-- The key of a name whose case does not matter, with ASCII apart. -/
theorem nameKey_false (name : String) :
    nameKey false name = Text.mapGlyphs Text.directFoldFull (Text.ofString name) := Text.fold_eq _

theorem sameName_false (a b : String) : sameName false a b = (a == b ||
    Text.mapGlyphs Text.directFoldFull (Text.ofString a) == Text.mapGlyphs Text.directFoldFull
      (Text.ofString b)) := by
  rw [sameName, nameKey_false, nameKey_false]
  rfl

namespace Store

variable {s s' : Store} {host : Host} {name : String} {k l : Text} {held : Held}

/-- The variable under a key. -/
def at? (s : Store) (k : Text) : Option Variable := (s.entries.find? (·.1 == k)).map (·.2)

theorem find?_eq_at? (s : Store) (name : String) : s.find? name = s.at? (s.key name) := rfl

def holding (s : Store) (k : Text) (v : Variable) : Store := { s with entries := put k v s.entries }

theorem find?_put (k l : Text) (v : Variable) (es : List (Text × Variable)) :
    (put k v es).find? (·.1 == l) = if l = k then some (k, v) else es.find? (·.1 == l) := by
  induction es with
  | nil =>
    by_cases h : l = k
    · simp [put, h]
    · simp [put, h, Ne.symm h]
  | cons e es ih =>
    obtain ⟨m, w⟩ := e
    by_cases hm : m = k
    · by_cases h : l = k
      · simp [put, hm, h]
      · simp [put, hm, h, Ne.symm h]
    · by_cases h : m = l
      · have hl : l ≠ k := h ▸ hm
        simp [put, h, hl]
      · simp only [put, beq_iff_eq, hm, if_false, List.find?_cons, beq_eq_false_iff_ne.2 h, ih]

/-- Of the entries with a variable put under a key, each is that one or was there before. -/
theorem mem_of_mem_put {k : Text} {v : Variable} {es : List (Text × Variable)} {e : Text × Variable}
    (h : e ∈ put k v es) : e = (k, v) ∨ e ∈ es := by
  induction es with
  | nil => exact .inl (List.mem_singleton.1 h)
  | cons x es ih =>
    obtain ⟨l, w⟩ := x
    rw [put] at h
    split at h
    · rcases List.mem_cons.1 h with rfl | h
      · exact .inl rfl
      · exact .inr (List.mem_cons_of_mem _ h)
    · rcases List.mem_cons.1 h with rfl | h
      · exact .inr List.mem_cons_self
      · exact (ih h).imp id (List.mem_cons_of_mem _)

theorem mem_of_mem_holding {v : Variable} {e : Text × Variable} (h : e ∈ (s.holding k v).entries) :
    e = (k, v) ∨ e ∈ s.entries := mem_of_mem_put h

@[simp] theorem at?_holding (s : Store) (k l : Text) (v : Variable) :
    (s.holding k v).at? l = if l = k then some v else s.at? l := by
  rw [at?, holding, find?_put]
  split <;> rfl

@[simp] theorem at?_remove (s : Store) (name : String) (l : Text) :
    (s.remove name).at? l = if l = s.key name then none else s.at? l := by
  rw [at?, remove, List.find?_filter]
  split
  · rename_i h
    subst h
    simp
  · rename_i h
    have hsame : ∀ e : Text × Variable, decide ((e.1 != s.key name) = true ∧ (e.1 == l) = true) =
        (e.1 == l) := by
      intro e
      by_cases he : e.1 = l
      · simp [he, h]
      · simp [he]
    simp only [hsame, at?]

/-- A definition is refused and leaves the store as it was, or there was no such variable and what
it holds fits its type. -/
theorem define_cases (s : Store) (host : Host) (name : String) (type : Option Ty) (held : Held) :
    (∃ fault, s.define host name type held = (.error fault, s)) ∨
      ∃ t, type.or held.type? = some t ∧ misfit? host name t held = none ∧ s.find? name = none ∧
        s.define host name type held = (.ok (), s.holding (s.key name) ⟨name, t, held⟩) := by
  unfold define
  split
  · exact .inl ⟨_, rfl⟩
  · rename_i t ht
    split
    · exact .inl ⟨_, rfl⟩
    · split
      · exact .inl ⟨_, rfl⟩
      · rename_i hfits
        split
        · exact .inl ⟨_, rfl⟩
        · rename_i hnew
          exact .inr ⟨t, ht, hfits, by simpa [contains] using hnew, rfl⟩

/-- An assignment is refused and leaves the store as it was, or a variable keeps its name and its
type, which fits what it holds, or a new one takes the type of what it holds. -/
theorem set_cases (s : Store) (host : Host) (name : String) (held : Held) :
    (∃ fault, s.set host name held = (.error fault, s)) ∨
      (∃ v, s.find? name = some v ∧ misfit? host name v.type held = none ∧
        s.set host name held = (.ok (), s.holding (s.key name) { v with held := held })) ∨
      ∃ t, s.find? name = none ∧ held.type? = some t ∧
        s.set host name held = (.ok (), s.holding (s.key name) ⟨name, t, held⟩) := by
  unfold set
  split
  · rename_i v hv
    split
    · exact .inl ⟨_, rfl⟩
    · rename_i hfits
      exact .inr (.inl ⟨v, hv, hfits, rfl⟩)
  · rename_i hnone
    split
    · exact .inl ⟨_, rfl⟩
    · rename_i t ht
      exact .inr (.inr ⟨t, hnone, ht, rfl⟩)

theorem define_eq_ok {type : Option Ty} (h : s.define host name type held = (.ok (), s')) :
    ∃ t, type.or held.type? = some t ∧ misfit? host name t held = none ∧ s.find? name = none ∧
      s' = s.holding (s.key name) ⟨name, t, held⟩ := by
  obtain ⟨fault, hrefused⟩ | ⟨t, ht, hfits, hnew, hdefine⟩ := define_cases s host name type held
  · rw [hrefused] at h
    cases h
  · rw [hdefine] at h
    cases h
    exact ⟨t, ht, hfits, hnew, rfl⟩

theorem set_eq_ok (h : s.set host name held = (.ok (), s')) :
    (∃ v, s.find? name = some v ∧ misfit? host name v.type held = none ∧
      s' = s.holding (s.key name) { v with held := held }) ∨
    ∃ t, s.find? name = none ∧ held.type? = some t ∧
      s' = s.holding (s.key name) ⟨name, t, held⟩ := by
  obtain ⟨fault, hrefused⟩ | ⟨v, hv, hfits, hset⟩ | ⟨t, hnone, ht, hset⟩ :=
    set_cases s host name held
  · rw [hrefused] at h
    cases h
  · rw [hset] at h
    cases h
    exact .inl ⟨v, hv, hfits, rfl⟩
  · rw [hset] at h
    cases h
    exact .inr ⟨t, hnone, ht, rfl⟩

/-- A new variable with a name is defined where what it holds fits its type. -/
theorem define_of_new {type : Option Ty} {t : Ty} (htype : type.or held.type? = some t)
    (hname : name.isEmpty = false)
    (hfits : misfit? host name t held = none) (hnew : s.find? name = none) :
    s.define host name type held = (.ok (), s.holding (s.key name) ⟨name, t, held⟩) := by
  rw [define, htype]
  simp only [hname, hfits, contains, hnew, Option.isSome_none, Bool.false_eq_true, if_false]
  rfl

/-- A variable takes what fits its type. -/
theorem set_of_find? {v : Variable} (hfind : s.find? name = some v)
    (hfits : misfit? host name v.type held = none) :
    s.set host name held = (.ok (), s.holding (s.key name) { v with held := held }) := by
  rw [set, hfind]
  simp only [hfits]
  rfl

end Store

inductive Store.Change where
  | define (name : String) (type : Option Ty) (held : Held)
  | set (name : String) (held : Held)
  | remove (name : String)
  | clear
  | caseRule (caseSensitive : Bool)

def Store.Change.held? : Store.Change → Option Held
  | .define _ _ held | .set _ held => some held
  | _ => none

namespace Store

variable {host : Host} {s s' : Store}

/-- A change: whether it is accepted, or why not, and the store after it. -/
def apply (s : Store) (host : Host) : Change → Except StoreFault Unit × Store
  | .define name type held => s.define host name type held
  | .set name held => s.set host name held
  | .remove name => (.ok (), s.remove name)
  | .clear => (.ok (), s.clear)
  | .caseRule caseSensitive => (.ok (), s.withCaseRule caseSensitive)

def after (s : Store) (host : Host) (change : Change) : Store := (s.apply host change).2

theorem misfit?_eq_none {name : String} {t u : Ty} {held : Held}
    (h : misfit? host name t held = none)
    (hu : held.type? = some u) : host.isAssignable u t = true := by
  rw [misfit?, hu] at h
  by_contra hnot
  simp [hnot] at h

/-- What a change can make of a store. It is refused, or puts a variable that fits its type where
none of the name was or one that had this type, or takes variables away, or puts all of them under
another case rule. -/
inductive Becomes (s : Store) (host : Host) (change : Change) : Store → Prop
  | refused {fault : StoreFault} (h : (s.apply host change).1 = .error fault) :
      Becomes s host change s
  | holding {name : String} {v : Variable} (hheld : change.held? = some v.held)
      (hfits : ∀ t, v.held.type? = some t → host.isAssignable t v.type = true)
      (hplace : (∃ w, s.find? name = some w ∧ v.name = w.name ∧ v.type = w.type) ∨
        s.find? name = none ∧ v.name = name) :
      Becomes s host change (s.holding (s.key name) v)
  | fewer {entries : List (Text × Variable)} (h : entries.Sublist s.entries) :
      Becomes s host change { s with entries := entries }
  | rekeyed (caseSensitive : Bool) : Becomes s host change (s.withCaseRule caseSensitive)

theorem becomes_after (s : Store) (host : Host) (change : Change) :
    s.Becomes host change (s.after host change) := by
  cases change with
  | define name type held =>
    obtain ⟨fault, h⟩ | ⟨t, -, hfits, hnew, h⟩ := define_cases s host name type held
    · rw [after, apply, h]
      exact .refused (congrArg Prod.fst h)
    · rw [after, apply, h]
      exact .holding rfl (fun u hu => misfit?_eq_none hfits hu) (.inr ⟨hnew, rfl⟩)
  | set name held =>
    obtain ⟨fault, h⟩ | ⟨v, hv, hfits, h⟩ | ⟨t, hnew, ht, h⟩ := set_cases s host name held
    · rw [after, apply, h]
      exact .refused (congrArg Prod.fst h)
    · rw [after, apply, h]
      exact .holding rfl (fun u hu => misfit?_eq_none hfits hu) (.inl ⟨v, hv, rfl, rfl⟩)
    · rw [after, apply, h]
      refine .holding rfl (fun u hu => ?_) (.inr ⟨hnew, rfl⟩)
      obtain rfl : t = u := Option.some.inj (ht.symm.trans hu)
      simp [Host.isAssignable, Host.suits]
  | remove name => exact .fewer List.filter_sublist
  | clear => exact .fewer (List.nil_sublist _)
  | caseRule caseSensitive => exact .rekeyed caseSensitive

/-- A change that is refused leaves the store as it was. -/
theorem after_refused {change : Change} {fault : StoreFault}
    (h : (s.apply host change).1 = .error fault) :
    s.after host change = s := by
  cases change with
  | define name type held =>
    obtain ⟨_, hrefused⟩ | ⟨t, -, -, -, hdefine⟩ := define_cases s host name type held
    · rw [after, apply, hrefused]
    · rw [apply, hdefine] at h
      cases h
  | set name held =>
    obtain ⟨_, hrefused⟩ | ⟨v, -, -, hset⟩ | ⟨t, -, -, hset⟩ := set_cases s host name held
    · rw [after, apply, hrefused]
    · rw [apply, hset] at h
      cases h
    · rw [apply, hset] at h
      cases h
  | remove | clear | caseRule => cases h

/-- Variables under the keys of their own names, one under each key, that hold nothing at all or
what can be assigned to the types they were declared with. -/
structure Consistent (host : Host) (s : Store) : Prop where
  keyed : ∀ e ∈ s.entries, e.1 = s.key e.2.name
  distinct : (s.entries.map (·.1)).Nodup
  fits : ∀ e ∈ s.entries, ∀ t, e.2.held.type? = some t → host.isAssignable t e.2.type = true

theorem mem_of_at? {k : Text} {v : Variable} (h : s.at? k = some v) : (k, v) ∈ s.entries := by
  obtain ⟨⟨l, w⟩, hfind, rfl⟩ := Option.map_eq_some_iff.1 h
  have hl : l = k := by simpa using List.find?_some hfind
  exact hl ▸ List.mem_of_find?_eq_some hfind

theorem nodup_put {k : Text} {v : Variable} {es : List (Text × Variable)}
    (h : (es.map (·.1)).Nodup) :
    ((put k v es).map (·.1)).Nodup := by
  induction es with
  | nil => simp [put]
  | cons x es ih =>
    obtain ⟨l, w⟩ := x
    obtain ⟨hl, hes⟩ := List.nodup_cons.1 h
    by_cases hk : l = k
    · simpa [put, hk] using h
    · simp only [put, beq_iff_eq, hk, if_false, List.map_cons]
      refine List.nodup_cons.2 ⟨fun hmem => ?_, ih hes⟩
      obtain ⟨e, he, hfst⟩ := List.mem_map.1 hmem
      rcases mem_of_mem_put he with rfl | he
      · exact hk hfst.symm
      · exact hl (List.mem_map.2 ⟨e, he, hfst⟩)

namespace Consistent

/-- One entry under each key. -/
theorem eq_of_key (h : s.Consistent host) {e e' : Text × Variable} (he : e ∈ s.entries)
    (he' : e' ∈ s.entries)
    (hkey : e.1 = e'.1) : e = e' :=
  List.inj_on_of_nodup_map h.distinct he he' hkey

theorem empty (caseSensitive : Bool) (hooks : Hooks) :
    ({ caseSensitive := caseSensitive, hooks := hooks } : Store).Consistent host :=
  ⟨nofun, List.nodup_nil, nofun⟩

/-- A variable that fits, under the key of its name. -/
theorem holding (h : s.Consistent host) {v : Variable}
    (hfits : ∀ t, v.held.type? = some t → host.isAssignable t v.type = true) :
    (s.holding (s.key v.name) v).Consistent host := by
  refine ⟨fun e he => ?_, nodup_put h.distinct, fun e he => ?_⟩
  · rcases mem_of_mem_put he with rfl | he
    · rfl
    · exact h.keyed e he
  · rcases mem_of_mem_put he with rfl | he
    · exact hfits
    · exact h.fits e he

/-- The variable of a name stands under the key of its own name. -/
theorem key_of_find? (h : s.Consistent host) {name : String} {v : Variable}
    (hfind : s.find? name = some v) :
    s.key name = s.key v.name :=
  h.keyed _ (mem_of_at? hfind)

/-- Entries under another case rule stand under the keys of their names, and each of them was there
before. -/
theorem mem_rekeyed {caseSensitive : Bool} {entries : List (Text × Variable)} {e : Text × Variable}
    (h : e ∈ rekeyed caseSensitive entries) :
    e.1 = nameKey caseSensitive e.2.name ∧ ∃ e' ∈ entries, e'.2 = e.2 := by
  have hfold : ∀ rest es : List (Text × Variable),
    e ∈ rest.foldl (fun es e => put (nameKey caseSensitive e.2.name) e.2 es) es →
      e ∈ es ∨ e.1 = nameKey caseSensitive e.2.name ∧ ∃ e' ∈ rest, e'.2 = e.2 := by
    intro rest
    induction rest with
    | nil => exact fun es h => .inl h
    | cons x rest ih =>
      intro es h
      rcases ih _ h with h | ⟨hkey, e', he', heq⟩
      · rcases mem_of_mem_put h with rfl | h
        · exact .inr ⟨rfl, x, List.mem_cons_self, rfl⟩
        · exact .inl h
      · exact .inr ⟨hkey, e', List.mem_cons_of_mem _ he', heq⟩
  exact (hfold entries [] h).resolve_left nofun

theorem nodup_rekeyed (caseSensitive : Bool) (entries : List (Text × Variable)) :
    ((rekeyed caseSensitive entries).map (·.1)).Nodup := by
  have hfold : ∀ (rest es : List (Text × Variable)), (es.map (·.1)).Nodup →
      ((rest.foldl (fun es e => put (nameKey caseSensitive e.2.name) e.2 es) es).map
        (·.1)).Nodup := by
    intro rest
    induction rest with
    | nil => exact fun es h => h
    | cons x rest ih => exact fun es h => ih _ (nodup_put h)
  exact hfold entries [] List.nodup_nil

/-- Of the variables under another case rule, each was there before. -/
theorem exists_of_mem_withCaseRule {caseSensitive : Bool} {e : Text × Variable}
    (h : e ∈ (s.withCaseRule caseSensitive).entries) : ∃ e' ∈ s.entries, e'.2 = e.2 := by
  unfold withCaseRule at h
  split at h
  · exact ⟨e, h, rfl⟩
  · obtain ⟨-, e', he', heq⟩ := mem_rekeyed h
    exact ⟨e', (s.ranging.perm s.entries).mem_iff.1 he', heq⟩

theorem withCaseRule (h : s.Consistent host) (caseSensitive : Bool) :
    (s.withCaseRule caseSensitive).Consistent host := by
  refine ⟨fun e he => ?_, ?_, fun e he => ?_⟩
  · unfold Store.withCaseRule at he ⊢
    split at he
    · rename_i hsame
      simp only [hsame, if_true]
      exact h.keyed e he
    · rename_i hnew
      simp only [hnew]
      exact (mem_rekeyed he).1
  · unfold Store.withCaseRule
    split
    · exact h.distinct
    · exact nodup_rekeyed _ _
  · obtain ⟨e', he', heq⟩ := exists_of_mem_withCaseRule he
    exact heq ▸ h.fits e' he'

/-- A change keeps a store consistent. -/
theorem after (h : s.Consistent host) (change : Change) :
    (s.after host change).Consistent host := by
  have hbecomes := becomes_after s host change
  generalize s.after host change = s' at hbecomes ⊢
  cases hbecomes with
  | refused => exact h
  | @holding name v _ hfits hplace =>
    have hkey : s.key name = s.key v.name := by
      obtain ⟨w, hfind, hname, -⟩ | ⟨-, hname⟩ := hplace
      · rw [h.key_of_find? hfind, hname]
      · rw [hname]
    exact hkey ▸ h.holding hfits
  | fewer hsub =>
    exact ⟨fun e he => h.keyed e (hsub.subset he), h.distinct.sublist (hsub.map _), fun e he =>
      h.fits e (hsub.subset he)⟩
  | rekeyed caseSensitive => exact h.withCaseRule caseSensitive

end Consistent

theorem hooks_after (s : Store) (host : Host) (change : Change) :
    (s.after host change).hooks = s.hooks := by
  have hbecomes := becomes_after s host change
  generalize s.after host change = s' at hbecomes ⊢
  cases hbecomes with
  | rekeyed caseSensitive =>
    unfold withCaseRule
    split <;> rfl
  | _ => rfl

/-- Whatever holds of all that variables hold, and of what a change brings, holds after it. -/
theorem held_after {P : Held → Prop} (h : ∀ e ∈ s.entries, P e.2.held) {change : Change}
    (hchange : ∀ held, change.held? = some held → P held) : ∀ e ∈ (s.after host change).entries,
    P e.2.held := by
  intro e he
  have hbecomes := becomes_after s host change
  generalize s.after host change = s' at hbecomes he
  cases hbecomes with
  | refused => exact h e he
  | holding hheld =>
    rcases mem_of_mem_put he with rfl | he
    · exact hchange _ hheld
    · exact h e he
  | fewer hsub => exact h e (hsub.subset he)
  | rekeyed caseSensitive =>
    obtain ⟨e', he', heq⟩ := Consistent.exists_of_mem_withCaseRule he
    exact heq ▸ h e' he'

namespace Consistent

section Types

variable {e e' : Text × Variable}

/-- Two entries of one name are the same. -/
theorem eq_of_name (h : s.Consistent host) (he : e ∈ s.entries) (he' : e' ∈ s.entries)
    (hname : e'.2.name = e.2.name) :
    e' = e :=
  h.eq_of_key he' he (by rw [h.keyed e' he', h.keyed e he, hname])

/-- A variable of a name that is not defined is new. -/
theorem type_of_new (h : s.Consistent host) {v : Variable} (hnew : s.find? v.name = none)
    (he : e ∈ s.entries)
    (he' : e' ∈ (s.holding (s.key v.name) v).entries) (hname : e'.2.name = e.2.name) :
    e'.2.type = e.2.type := by
  rcases mem_of_mem_put he' with rfl | he'
  · have hkey : e.1 = s.key v.name := by rw [h.keyed e he, ← hname]
    rw [find?_eq_at?, at?, Option.map_eq_none_iff, List.find?_eq_none] at hnew
    exact absurd (beq_iff_eq.2 hkey) (hnew e he)
  · rw [h.eq_of_name he he' hname]

/-- A change leaves the declared types of variables as they are. -/
theorem type_after (h : s.Consistent host) (change : Change) (he : e ∈ s.entries)
    (he' : e' ∈ (s.after host change).entries) (hname : e'.2.name = e.2.name) :
    e'.2.type = e.2.type := by
  have hbecomes := becomes_after s host change
  generalize s.after host change = s' at hbecomes he'
  cases hbecomes with
  | refused => rw [h.eq_of_name he he' hname]
  | @holding name v _ _ hplace =>
    obtain ⟨w, hfind, hsame, htype⟩ | ⟨hnew, rfl⟩ := hplace
    · rcases mem_of_mem_put he' with rfl | he'
      · rw [← h.eq_of_name he (mem_of_at? hfind) (hsame.symm.trans hname)]
        exact htype
      · rw [h.eq_of_name he he' hname]
    · exact h.type_of_new hnew he he' hname
  | fewer hsub => rw [h.eq_of_name he (hsub.subset he') hname]
  | rekeyed caseSensitive =>
    obtain ⟨x, hx, heq⟩ := exists_of_mem_withCaseRule he'
    rw [← heq, h.eq_of_name he hx (by rw [heq, hname])]

end Types

end Consistent

end Store

end Formulary
