import Std.Data.HashMap

/-!
# Caches

A cache keeps at most a number of values under keys. When it is full, the value that was not used
for the longest time makes room for a new one. The entries stand in the order of their last use, the
latest first, each under a number of its own; an index tells the number of the entry of a key.
-/

namespace Formulary

structure Cache.Entry (κ α : Type) where
  number : Nat
  key : κ
  value : α

/-- A cache with its entries in the order of their last use, the index of their keys, the number of
the next entry and the counts of what happened to it. -/
structure Cache (κ α : Type) [DecidableEq κ] [Hashable κ] where
  capacity : Nat
  order : List (Cache.Entry κ α) := []
  index : Std.HashMap κ Nat := ∅
  next : Nat := 0
  hits : Nat := 0
  misses : Nat := 0
  evictions : Nat := 0
  positive : 0 < capacity

namespace Cache

variable {κ α : Type} [DecidableEq κ] [Hashable κ]

/-- The capacity of a cache for which none is asked. -/
def defaultCapacity : Nat := 256

/-- An empty cache. A capacity that is not positive asks for the default. -/
def create (capacity : Int) : Cache κ α where
  capacity := if capacity ≤ 0 then defaultCapacity else capacity.toNat
  positive := by
    split
    · decide
    · omega

/-- The keys with their values, the latest used first. -/
def entries (c : Cache κ α) : List (κ × α) := c.order.map fun e => (e.key, e.value)

/-- The keys, the latest used first. -/
def keys (c : Cache κ α) : List κ := c.order.map (·.key)

def at? (c : Cache κ α) (number : Nat) : Option (Entry κ α) := c.order.find? (·.number == number)

def find? (c : Cache κ α) (key : κ) : Option (Entry κ α) := c.index[key]?.bind c.at?

def peek? (c : Cache κ α) (key : κ) : Option α := (c.find? key).map (·.value)

def besides (c : Cache κ α) (number : Nat) : List (Entry κ α) := c.order.filter (·.number != number)

/-- The cache with an entry as the latest used, in place of the one of its number. -/
def advance (c : Cache κ α) (e : Entry κ α) : Cache κ α :=
  { c with order := e :: c.besides e.number }

/-- Looks a key up. A hit makes its entry the latest used. -/
def get (c : Cache κ α) (key : κ) : Option α × Cache κ α :=
  match c.find? key with
  | some e => (some e.value, { c.advance e with hits := c.hits + 1 })
  | none => (none, { c with misses := c.misses + 1 })

/-- Evicts the entry that was used the longest time ago. -/
def evict (c : Cache κ α) : Cache κ α :=
  match c.order.getLast? with
  | some e =>
    { c with order := c.order.dropLast, index := c.index.erase e.key, evictions := c.evictions + 1 }
  | none => c

theorem length_evict_lt (c : Cache κ α) (h : c.capacity ≤ c.order.length) :
    c.evict.order.length < c.order.length := by
  have hpos : 0 < c.order.length := Nat.lt_of_lt_of_le c.positive h
  unfold evict
  split
  · rw [List.length_dropLast]
    omega
  · rename_i hnone
    rw [List.getLast?_eq_none_iff.1 hnone] at hpos
    cases hpos

def makeRoom (c : Cache κ α) : Cache κ α :=
  if c.capacity ≤ c.order.length then makeRoom c.evict else c
termination_by c.order.length
decreasing_by exact length_evict_lt c ‹_›

/-- The cache with a new entry as the latest used. -/
def add (c : Cache κ α) (key : κ) (value : α) : Cache κ α :=
  { c with
    order := ⟨c.next, key, value⟩ :: c.order, index := c.index.insert key c.next,
    next := c.next + 1 }

/-- Stores a value under a key as the latest used. A new key of a full cache evicts the entries that
were used the longest time ago, until there is room for it. -/
def set (c : Cache κ α) (key : κ) (value : α) : Cache κ α :=
  match c.find? key with
  | some e => c.advance { e with value := value }
  | none => c.makeRoom.add key value

/-- The value under a key, made and stored if there is none. The key is looked up again before the
value is made, without counting. What cannot be made is not stored. -/
def getOrMake {ε : Type} (c : Cache κ α) (key : κ) (make : Unit → Except ε α) :
    Except ε α × Cache κ α :=
  match c.get key with
  | (some value, c) => (.ok value, c)
  | (none, c) =>
    match c.peek? key with
    | some value => (.ok value, c)
    | none =>
      match make () with
      | .ok value => (.ok value, c.set key value)
      | .error e => (.error e, c)

def invalidate (c : Cache κ α) (key : κ) : Cache κ α :=
  match c.find? key with
  | some e => { c with order := c.besides e.number, index := c.index.erase key }
  | none => c

/-- The cache without entries. It keeps its counts. -/
def clear (c : Cache κ α) : Cache κ α := { c with order := [], index := ∅ }

end Cache

end Formulary
