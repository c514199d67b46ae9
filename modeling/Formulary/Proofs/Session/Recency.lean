import Mathlib.Data.List.Nodup
import Formulary.Session.Cache

/-!
# Caches keep what was used last

Beside a cache stands a list of keys with their values, the latest used first, without numbers and
without an index. A lookup that hits and a value that is stored come to its front; a new key of a
full list takes the place of the last one. A cache answers every run of operations as this list does
and holds the same keys in the same order, and its index holds them too.
-/

namespace Formulary.Cache

/-- What is done to a cache. What is made for a key does not depend on the cache. -/
inductive Operation (κ α ε : Type) where
  | get (key : κ)
  | set (key : κ) (value : α)
  | getOrMake (key : κ) (make : Unit → Except ε α)
  | invalidate (key : κ)
  | clear

inductive Answer (α ε : Type) where
  | found (value : Option α)
  | made (result : Except ε α)
  | done

/-- Whether an operation looks a key up. -/
def Operation.isLookup {κ α ε : Type} : Operation κ α ε → Bool
  | .get _ | .getOrMake .. => true
  | _ => false

variable {κ α ε : Type} [DecidableEq κ]

/-- The keys with their values, the latest used first. -/
abbrev Recency (κ α : Type) := List (κ × α)

namespace Recency

def touch (key : κ) (value : α) (l : Recency κ α) : Recency κ α :=
  (key, value) :: l.filter (·.1 ≠ key)

/-- The list with a value stored under a key. A new key of a full list drops the key at the end. -/
def store (capacity : Nat) (key : κ) (value : α) (l : Recency κ α) : Recency κ α :=
  if (l.lookup key).isSome then touch key value l
  else if l.length < capacity then (key, value) :: l
  else (key, value) :: l.dropLast

def perform (capacity : Nat) (l : Recency κ α) : Operation κ α ε → Answer α ε × Recency κ α
  | .get key =>
    match l.lookup key with
    | some value => (.found (some value), touch key value l)
    | none => (.found none, l)
  | .set key value => (.done, store capacity key value l)
  | .getOrMake key make =>
    match l.lookup key, make () with
    | some value, _ => (.made (.ok value), touch key value l)
    | none, .ok value => (.made (.ok value), store capacity key value l)
    | none, .error e => (.made (.error e), l)
  | .invalidate key => (.done, l.filter (·.1 ≠ key))
  | .clear => (.done, [])

def run (capacity : Nat) (l : Recency κ α) : List (Operation κ α ε) →
    List (Answer α ε) × Recency κ α
  | [] => ([], l)
  | op :: rest =>
    let (a, l) := perform capacity l op
    let (as, l) := run capacity l rest
    (a :: as, l)

def lost (l l' : Recency κ α) : List κ := (l.map (·.1)).filter (· ∉ l'.map (·.1))

/-- The keys that are lost when a value is stored. -/
def displaced (capacity : Nat) (l : Recency κ α) : Operation κ α ε → List κ
  | .invalidate _ | .clear => []
  | op => lost l (perform capacity l op).2

/-- The keys that are lost when values are stored, over operations one after another. -/
def displacedBy (capacity : Nat) (l : Recency κ α) : List (Operation κ α ε) → List κ
  | [] => []
  | op :: rest => displaced capacity l op ++ displacedBy capacity (perform capacity l op).2 rest

variable {l : Recency κ α} {key : κ}

/-- A key that comes to the front costs none. -/
theorem lost_touch (l : Recency κ α) (key : κ) (value : α) : lost l (touch key value l) = [] := by
  refine List.filter_eq_nil_iff.2 fun k hk => ?_
  obtain ⟨p, hp, rfl⟩ := List.mem_map.1 hk
  by_cases hkey : p.1 = key
  · simp [touch, hkey]
  · simp only [touch, List.map_cons, List.mem_cons, hkey, false_or, decide_not, Bool.not_eq_true',
      decide_eq_false_iff_not, not_not]
    exact List.mem_map_of_mem (List.mem_filter.2 ⟨hp, by simpa using hkey⟩)

/-- Nor does a list that grows. -/
theorem lost_of_subset {l l' : Recency κ α} (h : l ⊆ l') : lost l l' = [] := by
  refine List.filter_eq_nil_iff.2 fun k hk => ?_
  obtain ⟨p, hp, rfl⟩ := List.mem_map.1 hk
  simpa using ⟨p.2, h hp⟩

/-- A new key in the place of the last one costs exactly that one. -/
theorem lost_last {p : κ × α} {value : α} (hkeys : ((l ++ [p]).map (·.1)).Nodup)
    (hkey : key ∉ (l ++ [p]).map (·.1)) :
    lost (l ++ [p]) ((key, value) :: l) = [p.1] := by
  rw [List.map_append, List.map_singleton] at hkeys hkey
  have hlast : p.1 ∉ l.map (·.1) := fun hmem =>
    (List.nodup_append.1 hkeys).2.2 _ hmem _ (List.mem_singleton.2 rfl) rfl
  have hfront : (l.map (·.1)).filter (· ∉ ((key, value) :: l).map (·.1)) = [] := by
    refine List.filter_eq_nil_iff.2 fun k hk => ?_
    simp only [List.map_cons, List.mem_cons, hk, or_true, not_true, decide_false,
      Bool.false_eq_true, not_false_eq_true]
  have hne : p.1 ≠ key := fun heq => hkey (by simp [heq])
  have hmissing : p.1 ∉ ((key, value) :: l).map (·.1) := by
    rw [List.map_cons, List.mem_cons]
    exact fun hor => hor.elim hne hlast
  rw [lost, List.map_append, List.filter_append, hfront, List.map_singleton, List.filter_cons,
    if_pos (decide_eq_true hmissing)]
  rfl

end Recency

/-- The value that stands under the key of an entry, if keys stand once. -/
theorem lookup_of_mem {order : List (Entry κ α)} {e : Entry κ α} (h : (order.map (·.key)).Nodup)
    (he : e ∈ order) :
    (order.map fun e => (e.key, e.value)).lookup e.key = some e.value := by
  induction order with
  | nil => cases he
  | cons x order ih =>
    rw [List.map_cons, List.nodup_cons] at h
    rcases List.mem_cons.1 he with rfl | he
    · simp
    · have hne : (e.key == x.key) = false := by
        simpa using fun heq : e.key = x.key => h.1 (heq ▸ List.mem_map_of_mem he)
      simp [List.lookup_cons, hne, ih h.2 he]

variable [Hashable κ]

/-- An operation on a cache. -/
def perform (c : Cache κ α) : Operation κ α ε → Answer α ε × Cache κ α
  | .get key =>
    let (value, c) := c.get key
    (.found value, c)
  | .set key value => (.done, c.set key value)
  | .getOrMake key make =>
    let (result, c) := c.getOrMake key make
    (.made result, c)
  | .invalidate key => (.done, c.invalidate key)
  | .clear => (.done, c.clear)

def run (c : Cache κ α) : List (Operation κ α ε) → List (Answer α ε) × Cache κ α
  | [] => ([], c)
  | op :: rest =>
    let (a, c) := c.perform op
    let (as, c) := c.run rest
    (a :: as, c)

/-- The index leads to the entry of each key, keys and numbers stand once, numbers are given out in
order, and there are no more entries than the capacity allows. -/
structure Coherent (c : Cache κ α) : Prop where
  index : ∀ key number, c.index[key]? = some number ↔ ∃ e ∈ c.order, e.key = key ∧ e.number = number
  keys : (c.order.map (·.key)).Nodup
  numbers : (c.order.map (·.number)).Nodup
  given : ∀ e ∈ c.order, e.number < c.next
  room : c.order.length ≤ c.capacity

namespace Coherent

variable {c : Cache κ α} {key : κ} {e x : Entry κ α}

theorem eq_of_key (h : c.Coherent) (he : e ∈ c.order) (hx : x ∈ c.order)
    (heq : e.key = x.key) : e = x :=
  List.inj_on_of_nodup_map h.keys he hx heq

theorem eq_of_number (h : c.Coherent) (he : e ∈ c.order) (hx : x ∈ c.order)
    (heq : e.number = x.number) : e = x :=
  List.inj_on_of_nodup_map h.numbers he hx heq

/-- The index finds the entry of a key. -/
theorem find?_eq_some (h : c.Coherent) : c.find? key = some e ↔ e ∈ c.order ∧ e.key = key := by
  unfold find? at?
  constructor
  · intro hfind
    obtain ⟨n, hn, hat⟩ := Option.bind_eq_some_iff.1 hfind
    obtain ⟨x, hx, hkey, rfl⟩ := (h.index key n).1 hn
    have hnumber : e.number = x.number := by simpa using List.find?_some hat
    obtain rfl := h.eq_of_number (List.mem_of_find?_eq_some hat) hx hnumber
    exact ⟨hx, hkey⟩
  · rintro ⟨he, hkey⟩
    refine Option.bind_eq_some_iff.2 ⟨e.number, (h.index key e.number).2 ⟨e, he, hkey, rfl⟩, ?_⟩
    cases hat : c.order.find? (·.number == e.number) with
    | none => exact absurd (List.find?_eq_none.1 hat e he) (by simp)
    | some x =>
      have hnumber : x.number = e.number := by simpa using List.find?_some hat
      rw [h.eq_of_number (List.mem_of_find?_eq_some hat) he hnumber]

theorem find?_eq_none (h : c.Coherent) : c.find? key = none ↔ ∀ e ∈ c.order, e.key ≠ key := by
  rw [Option.eq_none_iff_forall_not_mem]
  constructor
  · exact fun hnone e he hkey => hnone e (h.find?_eq_some.2 ⟨he, hkey⟩)
  · exact fun hnone e he => hnone e (h.find?_eq_some.1 he).1 (h.find?_eq_some.1 he).2

/-- What the index finds is what stands in the list under the key. -/
theorem lookup_entries (h : c.Coherent) (key : κ) :
    c.entries.lookup key = (c.find? key).map (·.value) := by
  cases hfind : c.find? key with
  | none =>
    rw [List.lookup_eq_none_iff.2]
    · rfl
    · intro p hp
      obtain ⟨e, he, rfl⟩ := List.mem_map.1 hp
      simpa using Ne.symm (h.find?_eq_none.1 hfind e he)
  | some e =>
    obtain ⟨he, rfl⟩ := h.find?_eq_some.1 hfind
    exact lookup_of_mem h.keys he

/-- An entry stands once, whatever the order is. -/
theorem perm_besides (h : c.Coherent) (he : e ∈ c.order) :
    c.order.Perm (e :: c.besides e.number) := by
  have hnot : e ∉ c.besides e.number := fun hmem => by simp [besides] at hmem
  refine (List.perm_ext_iff_of_nodup h.numbers.of_map
    (List.nodup_cons.2 ⟨hnot, h.numbers.of_map.filter _⟩)).2 fun x => ?_
  constructor
  · intro hx
    by_cases hnumber : x.number = e.number
    · exact List.mem_cons.2 (.inl (h.eq_of_number hx he hnumber))
    · exact List.mem_cons_of_mem _ (List.mem_filter.2 ⟨hx, by simpa using hnumber⟩)
  · intro hx
    rcases List.mem_cons.1 hx with rfl | hx
    · exact he
    · exact (List.mem_filter.1 hx).1

/-- The entries but for one are those of the other keys. -/
theorem entries_besides (h : c.Coherent) (he : e ∈ c.order) :
    (c.besides e.number).map (fun e => (e.key, e.value)) = c.entries.filter (·.1 ≠ e.key) := by
  rw [entries, List.filter_map]
  refine congrArg _ (List.filter_congr fun x hx => ?_)
  have hiff : x.number = e.number ↔ x.key = e.key :=
    ⟨fun hn => congrArg Entry.key (h.eq_of_number hx he hn), fun hk =>
      congrArg Entry.number (h.eq_of_key hx he hk)⟩
  by_cases hk : x.key = e.key
  · simp [hk, hiff.2 hk]
  · simp [hk, mt hiff.1 hk]

/-- An entry comes to the front, with another value perhaps. -/
theorem advance (h : c.Coherent) (he : e ∈ c.order) (value : α) :
    (c.advance { e with value := value }).Coherent := by
  have hperm := h.perm_besides he
  refine ⟨fun key number => ?_, (hperm.map _).nodup_iff.1 h.keys,
    (hperm.map _).nodup_iff.1 h.numbers, fun x hx => ?_, ?_⟩
  · refine (h.index key number).trans ?_
    simp [Cache.advance, hperm.mem_iff]
  · rcases List.mem_cons.1 hx with rfl | hx
    · exact h.given e he
    · exact h.given x (List.mem_filter.1 hx).1
  · exact Nat.le_trans (Nat.le_of_eq hperm.length_eq.symm) h.room

/-- One entry is taken out, and its key out of the index. -/
theorem remove {c' : Cache κ α} (h : c.Coherent) (hperm : c.order.Perm (e :: c'.order))
    (hindex : c'.index = c.index.erase e.key) (hnext : c'.next = c.next)
    (hcapacity : c'.capacity = c.capacity) :
    c'.Coherent := by
  have hkeys := (hperm.map (·.key)).nodup_iff.1 h.keys
  have hnumbers := (hperm.map (·.number)).nodup_iff.1 h.numbers
  rw [List.map_cons, List.nodup_cons] at hkeys hnumbers
  refine ⟨fun key number => ?_, hkeys.2, hnumbers.2, fun x hx => ?_, ?_⟩
  · rw [hindex, Std.HashMap.getElem?_erase]
    by_cases hkey : e.key = key
    · subst hkey
      refine ⟨fun hnone => by simp at hnone, fun ⟨x, hx, hxkey, _⟩ => ?_⟩
      exact absurd (List.mem_map.2 ⟨x, hx, hxkey⟩) hkeys.1
    · rw [if_neg (by simpa using hkey), h.index]
      simp [hperm.mem_iff, hkey]
  · rw [hnext]
    exact h.given x (hperm.mem_iff.2 (List.mem_cons_of_mem _ hx))
  · have hlength := hperm.length_eq
    have hroom := h.room
    rw [List.length_cons] at hlength
    omega

/-- A new key comes to the front, if there is room. -/
theorem add (h : c.Coherent) (hkey : ∀ e ∈ c.order, e.key ≠ key)
    (hroom : c.order.length < c.capacity) (value : α) :
    (c.add key value).Coherent := by
  refine ⟨fun k number => ?_, ?_, ?_, fun x hx => ?_, hroom⟩
  · show (c.index.insert key c.next)[k]? = some number ↔ ∃ e ∈ ⟨c.next, key, value⟩ :: c.order, _
    rw [Std.HashMap.getElem?_insert]
    by_cases hk : key = k
    · subst hk
      simp only [beq_self_eq_true, if_true, Option.some.injEq, List.mem_cons,
        exists_eq_or_imp, true_and]
      exact ⟨.inl, fun hor => hor.resolve_right fun ⟨e, he, hek, _⟩ => hkey e he hek⟩
    · rw [if_neg (by simpa using hk), h.index]
      simp [hk]
  · exact List.nodup_cons.2 ⟨fun hmem => by
      obtain ⟨e, he, hek⟩ := List.mem_map.1 hmem
      exact hkey e he hek, h.keys⟩
  · exact List.nodup_cons.2 ⟨fun hmem => by
      obtain ⟨e, he, hen⟩ := List.mem_map.1 hmem
      exact Nat.ne_of_lt (h.given e he) hen, h.numbers⟩
  · rcases List.mem_cons.1 hx with rfl | hx
    · exact Nat.lt_succ_self _
    · exact Nat.lt_succ_of_lt (h.given x hx)

end Coherent

section Steps

variable {c : Cache κ α} {key : κ} {value : α}

theorem makeRoom_of_lt (h : c.order.length < c.capacity) : c.makeRoom = c := by
  rw [makeRoom, if_neg (Nat.not_le.2 h)]

/-- A full cache evicts one entry. -/
theorem makeRoom_of_full (h : c.order.length = c.capacity) : c.makeRoom = c.evict := by
  rw [makeRoom, if_pos (Nat.le_of_eq h.symm)]
  have hcapacity : c.evict.capacity = c.capacity := by
    unfold evict
    split <;> rfl
  exact makeRoom_of_lt (by
    have hlt := length_evict_lt c (Nat.le_of_eq h.symm)
    omega)

/-- The entry that is evicted is the one used the longest time ago. -/
theorem evict_eq {init : List (Entry κ α)} {e : Entry κ α} (h : c.order = init ++ [e]) :
    c.evict =
      { c with order := init, index := c.index.erase e.key, evictions := c.evictions + 1 } := by
  simp [evict, h]

/-- A cache that becomes what a list says: it counts the keys that are lost, and some lookups. -/
structure Becomes (c : Cache κ α) (l : Recency κ α) (lookups : Nat) (c' : Cache κ α) : Prop where
  coherent : c'.Coherent
  capacity : c'.capacity = c.capacity
  entries : c'.entries = l
  evictions : c'.evictions = c.evictions + (Recency.lost c.entries l).length
  lookups : c'.hits + c'.misses = c.hits + c.misses + lookups

/-- A key that is there comes to the front. -/
theorem advance_becomes (h : c.Coherent) {e : Entry κ α}
    (hfind : c.find? key = some e) (value : α) :
    c.Becomes (Recency.touch key value c.entries) 0 (c.advance { e with value := value }) := by
  obtain ⟨he, rfl⟩ := h.find?_eq_some.1 hfind
  refine ⟨h.advance he value, rfl, ?_, ?_, rfl⟩
  · exact congrArg _ (h.entries_besides he)
  · rw [Recency.lost_touch]
    rfl

theorem map_fst_entries (c : Cache κ α) : c.entries.map (·.1) = c.keys := by
  rw [entries, List.map_map]
  rfl

/-- A new key comes to the front. If the cache is full, the key at the end makes room for it. -/
theorem add_becomes (h : c.Coherent) (hnone : c.find? key = none) (value : α) :
    c.Becomes (Recency.store c.capacity key value c.entries) 0 (c.makeRoom.add key value) := by
  have hkey := h.find?_eq_none.1 hnone
  have hlookup : (c.entries.lookup key).isSome = false := by rw [h.lookup_entries, hnone]; rfl
  have hlength : c.entries.length = c.order.length := List.length_map _
  rcases Nat.lt_or_eq_of_le h.room with hlt | hfull
  · have hstore : Recency.store c.capacity key value c.entries = (key, value) :: c.entries := by
      simp [Recency.store, hlookup, hlength, hlt]
    rw [makeRoom_of_lt hlt, hstore]
    refine ⟨h.add hkey hlt value, rfl, rfl, ?_, rfl⟩
    rw [Recency.lost_of_subset (List.subset_cons_self _ _)]
    rfl
  · obtain ⟨init, e, horder⟩ : ∃ init e, c.order = init ++ [e] := by
      rcases List.eq_nil_or_concat c.order with hnil | ⟨init, e, heq⟩
      · have hpos := c.positive
        rw [← hfull, hnil] at hpos
        cases hpos
      · exact ⟨init, e, by rw [heq, List.concat_eq_append]⟩
    have hentries : c.entries = init.map (fun e => (e.key, e.value)) ++ [(e.key, e.value)] := by
      simp [entries, horder]
    have hstore : Recency.store c.capacity key value c.entries =
        (key, value) :: init.map fun e => (e.key, e.value) := by
      simp only [Recency.store, hlookup, Bool.false_eq_true, if_false, hlength,
        hfull, Nat.lt_irrefl]
      rw [hentries, List.dropLast_concat]
    have hevict := evict_eq horder
    have hcoherent : c.evict.Coherent := by
      refine h.remove (e := e) ?_ (by rw [hevict]) (by rw [hevict]) (by rw [hevict])
      rw [hevict, horder]
      exact List.perm_append_singleton e init
    have hlost : Recency.lost c.entries ((key, value) :: init.map fun e =>
        (e.key, e.value)) = [e.key] := by
      rw [hentries]
      refine Recency.lost_last ?_ ?_
      · rw [← hentries, map_fst_entries]
        exact h.keys
      · rw [← hentries, map_fst_entries]
        exact fun hmem => (List.mem_map.1 hmem).elim fun x hx => hkey x hx.1 hx.2
    rw [makeRoom_of_full hfull, hstore]
    refine ⟨hcoherent.add (fun x hx => hkey x ?_) ?_ value, ?_, ?_, ?_, ?_⟩
    · rw [hevict] at hx
      exact horder ▸ List.mem_append_left _ hx
    · have hlt := length_evict_lt c (Nat.le_of_eq hfull.symm)
      rw [hevict] at hlt ⊢
      exact Nat.lt_of_lt_of_eq hlt hfull
    · rw [hevict]
      rfl
    · rw [hevict]
      rfl
    · rw [hlost, hevict]
      rfl
    · rw [hevict]
      rfl

theorem set_becomes (h : c.Coherent) (key : κ) (value : α) :
    c.Becomes (Recency.store c.capacity key value c.entries) 0 (c.set key value) := by
  cases hfind : c.find? key with
  | none =>
    rw [set, hfind]
    exact add_becomes h hfind value
  | some e =>
    have hlookup : (c.entries.lookup key).isSome = true := by rw [h.lookup_entries, hfind]; rfl
    rw [set, hfind, Recency.store, if_pos hlookup]
    exact advance_becomes h hfind value

theorem get_hit (h : c.Coherent) {e : Entry κ α} (hfind : c.find? key = some e) :
    (c.get key).1 = some e.value ∧ c.Becomes (Recency.touch key e.value c.entries) 1
      (c.get key).2 := by
  have hfront := advance_becomes h hfind e.value
  rw [get, hfind]
  refine ⟨rfl, ⟨hfront.coherent.index, hfront.coherent.keys, hfront.coherent.numbers,
    hfront.coherent.given, hfront.coherent.room⟩, rfl, hfront.entries, hfront.evictions, ?_⟩
  show c.hits + 1 + c.misses = c.hits + c.misses + 1
  omega

theorem get_miss (hfind : c.find? key = none) :
    c.get key = (none, { c with misses := c.misses + 1 }) := by
  rw [get, hfind]

/-- What an operation does to a cache: it answers as the list does and leaves what the list holds,
counts the keys that are lost to a value that is stored, and counts once if it looks a key up. -/
structure Follows (c : Cache κ α) (op : Operation κ α ε) (a : Answer α ε)
    (c' : Cache κ α) : Prop where
  coherent : c'.Coherent
  capacity : c'.capacity = c.capacity
  outcome : (a, c'.entries) = Recency.perform c.capacity c.entries op
  evictions : c'.evictions = c.evictions + (Recency.displaced c.capacity c.entries op).length
  lookups : c'.hits + c'.misses = c.hits + c.misses + if op.isLookup then 1 else 0

/-- A cache that becomes what an operation makes of the list follows it, if the operation takes no
key out. -/
theorem Becomes.follows {l : Recency κ α} {n : Nat} {op : Operation κ α ε} {a : Answer α ε}
    {c' : Cache κ α}
    (h : c.Becomes l n c') (hperform : Recency.perform c.capacity c.entries op = (a, l))
    (hlookup : n = if op.isLookup then 1 else 0)
    (hdisplaced : Recency.displaced c.capacity c.entries op =
      Recency.lost c.entries (Recency.perform c.capacity c.entries op).2) : c.Follows op a c' where
  coherent := h.coherent
  capacity := h.capacity
  outcome := by rw [h.entries, hperform]
  evictions := by rw [hdisplaced, hperform, h.evictions]
  lookups := hlookup ▸ h.lookups

theorem miss_becomes (h : c.Coherent) :
    c.Becomes c.entries 1 { c with misses := c.misses + 1 } := by
  refine ⟨⟨h.index, h.keys, h.numbers, h.given, h.room⟩, rfl, rfl, ?_, (Nat.add_assoc ..).symm⟩
  rw [Recency.lost_of_subset (List.Subset.refl _)]
  rfl

theorem get_follows (h : c.Coherent) (key : κ) :
    c.Follows (.get key : Operation κ α ε) (.found (c.get key).1) (c.get key).2 := by
  cases hfind : c.find? key with
  | none =>
    have hperform : Recency.perform c.capacity c.entries (.get key : Operation κ α ε) =
        (.found none, c.entries) := by
      simp [Recency.perform, h.lookup_entries, hfind]
    rw [get_miss hfind]
    exact (miss_becomes h).follows hperform rfl rfl
  | some e =>
    have hperform : Recency.perform c.capacity c.entries (.get key : Operation κ α ε) =
        (.found (some e.value), Recency.touch key e.value c.entries) := by
      simp [Recency.perform, h.lookup_entries, hfind]
    obtain ⟨hvalue, hbecomes⟩ := get_hit h hfind
    rw [hvalue]
    exact hbecomes.follows hperform rfl rfl

/-- The second lookup finds what the first one found: nothing, if a value is to be made. -/
theorem getOrMake_follows (h : c.Coherent) (key : κ) (make : Unit → Except ε α) :
    c.Follows (.getOrMake key make) (.made (c.getOrMake key make).1) (c.getOrMake key make).2 := by
  cases hfind : c.find? key with
  | some e =>
    have hperform : Recency.perform c.capacity c.entries (.getOrMake key make) =
        (.made (.ok e.value), Recency.touch key e.value c.entries) := by
      simp [Recency.perform, h.lookup_entries, hfind]
    obtain ⟨hvalue, hbecomes⟩ := get_hit h hfind
    have hmake : c.getOrMake key make = (.ok e.value, (c.get key).2) := by
      rw [getOrMake, ← Prod.eta (c.get key), hvalue]
    rw [hmake]
    exact hbecomes.follows hperform rfl rfl
  | none =>
    have hmiss := miss_becomes h
    have hpeek : ({ c with misses := c.misses + 1 } : Cache κ α).peek? key = none :=
      Option.map_eq_none_iff.2 hfind
    cases hmade : make () with
    | error f =>
      have hperform : Recency.perform c.capacity c.entries (.getOrMake key make) =
          (.made (.error f), c.entries) := by
        simp [Recency.perform, h.lookup_entries, hfind, hmade]
      have hmake : c.getOrMake key make = (.error f, { c with misses := c.misses + 1 }) := by
        simp only [getOrMake, get_miss hfind, hpeek, hmade]
      rw [hmake]
      exact hmiss.follows hperform rfl rfl
    | ok value =>
      have hperform : Recency.perform c.capacity c.entries (.getOrMake key make) =
          (.made (.ok value), Recency.store c.capacity key value c.entries) := by
        simp [Recency.perform, h.lookup_entries, hfind, hmade]
      have hmake : c.getOrMake key make =
          (.ok value, ({ c with misses := c.misses + 1 } : Cache κ α).set key value) := by
        simp only [getOrMake, get_miss hfind, hpeek, hmade]
      have hset := set_becomes hmiss.coherent key value
      have hbecomes : c.Becomes (Recency.store c.capacity key value c.entries) 1
          (({ c with misses := c.misses + 1 } : Cache κ α).set key value) :=
        ⟨hset.coherent, hset.capacity, hset.entries, hset.evictions, hset.lookups⟩
      rw [hmake]
      exact hbecomes.follows hperform rfl rfl

theorem invalidate_follows (h : c.Coherent) (key : κ) :
    c.Follows (.invalidate key : Operation κ α ε) .done (c.invalidate key) := by
  cases hfind : c.find? key with
  | none =>
    have hkeep : c.entries.filter (·.1 ≠ key) = c.entries := by
      refine List.filter_eq_self.2 fun p hp => ?_
      obtain ⟨e, he, rfl⟩ := List.mem_map.1 hp
      simpa using h.find?_eq_none.1 hfind e he
    have hinvalidate : c.invalidate key = c := by rw [invalidate, hfind]
    rw [hinvalidate]
    exact ⟨h, rfl, by rw [Recency.perform, hkeep], rfl, rfl⟩
  | some e =>
    obtain ⟨he, rfl⟩ := h.find?_eq_some.1 hfind
    have hinvalidate : c.invalidate e.key =
        { c with order := c.besides e.number, index := c.index.erase e.key } := by
      rw [invalidate, hfind]
    rw [hinvalidate]
    refine ⟨h.remove (h.perm_besides he) rfl rfl rfl, rfl, ?_, rfl, rfl⟩
    rw [Recency.perform, ← h.entries_besides he]
    rfl

theorem clear_follows (c : Cache κ α) : c.Follows (.clear : Operation κ α ε) .done c.clear where
  coherent := ⟨by simp [clear], List.nodup_nil, List.nodup_nil, nofun, Nat.zero_le _⟩
  capacity := rfl
  outcome := rfl
  evictions := rfl
  lookups := rfl

/-- Every operation on a cache is followed. -/
theorem perform_follows (h : c.Coherent) (op : Operation κ α ε) :
    c.Follows op (c.perform op).1 (c.perform op).2 := by
  cases op with
  | get key => exact get_follows h key
  | set key value => exact (set_becomes h key value).follows rfl rfl rfl
  | getOrMake key make => exact getOrMake_follows h key make
  | invalidate key => exact invalidate_follows h key
  | clear => exact clear_follows c

/-- So is every run of operations. -/
theorem run_follows (h : c.Coherent) (ops : List (Operation κ α ε)) :
    (c.run ops).2.Coherent ∧ (c.run ops).2.capacity = c.capacity ∧
      ((c.run ops).1, (c.run ops).2.entries) = Recency.run c.capacity c.entries ops ∧
      (c.run ops).2.evictions = c.evictions +
        (Recency.displacedBy c.capacity c.entries ops).length ∧
      (c.run ops).2.hits + (c.run ops).2.misses =
        c.hits + c.misses + ops.countP Operation.isLookup := by
  induction ops generalizing c with
  | nil => exact ⟨h, rfl, rfl, rfl, rfl⟩
  | cons op ops ih =>
    have hop := perform_follows h op
    obtain ⟨hcoherent, hcapacity, houtcome, hevictions, hlookups⟩ := ih hop.coherent
    rw [hop.capacity] at hcapacity houtcome hevictions
    refine ⟨hcoherent, hcapacity, ?_, ?_, ?_⟩
    · show ((c.perform op).1 :: ((c.perform op).2.run ops).1,
        ((c.perform op).2.run ops).2.entries) = _
      simp only [Recency.run, ← hop.outcome, ← houtcome]
    · show ((c.perform op).2.run ops).2.evictions = _
      rw [hevictions, hop.evictions, Recency.displacedBy, ← hop.outcome,
        List.length_append, Nat.add_assoc]
    · show ((c.perform op).2.run ops).2.hits + ((c.perform op).2.run ops).2.misses = _
      rw [hlookups, hop.lookups, List.countP_cons, Nat.add_assoc, Nat.add_comm (ops.countP _)]

end Steps

/-- An empty cache. -/
theorem create_coherent (capacity : Int) : (create capacity : Cache κ α).Coherent :=
  ⟨by simp [create], List.nodup_nil, List.nodup_nil, nofun, Nat.zero_le _⟩

/-- The index holds the keys of the entries, each once. -/
theorem Coherent.keys_perm {c : Cache κ α} (h : c.Coherent) : c.index.keys.Perm c.keys := by
  refine (List.perm_ext_iff_of_nodup Std.HashMap.nodup_keys h.keys).2 fun key => ?_
  rw [Std.HashMap.mem_keys, Std.HashMap.mem_iff_isSome_getElem?, Option.isSome_iff_exists]
  simp [h.index]

/-- Whatever is done to a new cache of a positive capacity, it answers as the list of the keys in
the order of their last use, and holds what the list holds. The index and the entries have the same
keys, each once and no more than the capacity. Evictions are the keys that made room for others, and
hits and misses together are the lookups. -/
theorem run_recency (capacity : Int) (h : 0 < capacity) (ops : List (Operation κ α ε)) :
    let c := ((create capacity : Cache κ α).run ops).2
    c.index.keys.Perm c.keys ∧ c.keys.Nodup ∧ (c.keys.length : Int) ≤ capacity ∧
      (((create capacity : Cache κ α).run ops).1, c.entries) = Recency.run capacity.toNat [] ops ∧
      c.evictions = (Recency.displacedBy capacity.toNat ([] : Recency κ α) ops).length ∧
      c.hits + c.misses = ops.countP Operation.isLookup := by
  have hcapacity : (create capacity : Cache κ α).capacity = capacity.toNat := if_neg (by omega)
  obtain ⟨hcoherent, hkept, houtcome, hevictions, hlookups⟩ :=
    run_follows (create_coherent (κ := κ) (α := α) capacity) ops
  rw [hcapacity] at hkept houtcome hevictions
  refine ⟨hcoherent.keys_perm, hcoherent.keys, ?_, houtcome, ?_, ?_⟩
  · have hroom := hcoherent.room
    rw [keys, List.length_map]
    omega
  · rw [hevictions]
    exact Nat.zero_add _
  · rw [hlookups]
    exact Nat.zero_add _

/-- A cache for two: the third key takes the place of the second, since the first was looked up
again. -/
theorem run_recency_two : (0 : Int) < 2 ∧
    let ops : List (Operation Nat String Unit) :=
      [.set 1 "one", .getOrMake 2 fun _ => .ok "two", .get 1,
      .getOrMake 3 fun _ => .error (), .getOrMake 3 fun _ => .ok "three", .get 2]
    let c := ((create 2 : Cache Nat String).run ops).2
    c.entries = [(3, "three"), (1, "one")] ∧ c.evictions = 1 ∧ c.hits + c.misses = 5 := by
  refine ⟨by decide, ?_⟩
  intro ops c
  obtain ⟨-, -, -, houtcome, hevictions, hlookups⟩ :=
    run_recency (κ := Nat) (α := String) 2 (by decide) ops
  exact ⟨congrArg Prod.snd houtcome, hevictions, hlookups⟩

end Formulary.Cache
