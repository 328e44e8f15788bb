import Mathlib.Data.Finmap
import TeeReplication.Receive

/-!
# Replica state and the in-memory log

`struct state` and `struct in_mem_log_t` of `common.hpp`. The hash map is a
finite map from `int` to the vector of node ids. `operator[]` inserts an empty
vector at a missing key, so the accessors built on it also return the map.
-/

namespace TeeReplication

/-- `state`, without the counter that nothing reads. -/
structure State where
  /-- `cmt_idx`. -/
  cmtIdx : ℤ
  /-- `last_cmt_node`, used by the leader only. -/
  lastCmtNode : ℤ
  deriving DecidableEq

/-- `state s(-1, -1)`. -/
def State.init : State := ⟨-1, -1⟩

/-- `in_mem_log_t`. -/
@[ext] structure InMemLog where
  /-- `replication_log`. -/
  replicationLog : Finmap (fun _ : ℤ => List ℤ)
  deriving DecidableEq

namespace InMemLog

/-- The log of a process that starts. -/
def empty : InMemLog := ⟨∅⟩

/-- The vector at a key, if there is one. -/
def entry (log : InMemLog) (key : ℤ) : Option (List ℤ) := log.replicationLog.lookup key

/-- `has_key`. -/
def hasKey (log : InMemLog) (key : ℤ) : Bool := (log.entry key).isSome

/-- `size`. -/
def size (log : InMemLog) : ℕ := log.replicationLog.keys.card

/-- `replication_log[key]`: the vector at the key, after inserting an empty one if it is missing. -/
def subscript (log : InMemLog) (key : ℤ) : List ℤ × InMemLog :=
  match log.entry key with
  | some vector => (vector, log)
  | none => ([], ⟨log.replicationLog.insert key []⟩)

/-- Store a vector at a key. -/
def store (log : InMemLog) (key : ℤ) (vector : List ℤ) : InMemLog :=
  ⟨log.replicationLog.insert key vector⟩

/-- `size_at_key`, with the map after `operator[]`. -/
def sizeAtKey (log : InMemLog) (key : ℤ) : ℕ × InMemLog :=
  ((log.subscript key).1.length, (log.subscript key).2)

/-- `get_node_at`: the first node id at the key; reading from an empty vector is a fault. -/
def getNodeAt (log : InMemLog) (key : ℤ) : Except Fault ℤ :=
  match (log.subscript key).1 with
  | node :: _ => .ok node
  | [] => .error (.emptyVector key)

/-- `insert`: an empty vector unless the key is present, and then `push_back`. -/
def insert (log : InMemLog) (key value : ℤ) : InMemLog :=
  let log := if log.hasKey key then log else log.store key []
  (log.subscript key).2.store key ((log.subscript key).1 ++ [value])

/-- `append`: `push_back` on the vector at the key. -/
def append (log : InMemLog) (key value : ℤ) : InMemLog :=
  (log.subscript key).2.store key ((log.subscript key).1 ++ [value])

/-- `remove`. -/
def remove (log : InMemLog) (key : ℤ) : InMemLog := ⟨log.replicationLog.erase key⟩

/-- Logs with the same entries are equal. -/
theorem ext_entry {log log' : InMemLog} (h : ∀ key, log.entry key = log'.entry key) :
    log = log' :=
  InMemLog.ext (Finmap.ext_lookup h)

@[simp] theorem entry_empty (key : ℤ) : empty.entry key = none := Finmap.lookup_empty key

@[simp] theorem hasKey_empty (key : ℤ) : empty.hasKey key = false := by simp [hasKey]

theorem hasKey_eq_false {log : InMemLog} {key : ℤ} :
    log.hasKey key = false ↔ log.entry key = none := by simp [hasKey]

theorem hasKey_eq_true {log : InMemLog} {key : ℤ} :
    log.hasKey key = true ↔ ∃ vector, log.entry key = some vector := Option.isSome_iff_exists

/-- A key is in the map exactly when it has an entry. -/
theorem mem_keys {log : InMemLog} {key : ℤ} :
    key ∈ log.replicationLog.keys ↔ log.hasKey key = true := by
  rw [Finmap.mem_keys, ← Finmap.lookup_isSome]
  rfl

@[simp] theorem entry_store_self (log : InMemLog) (key : ℤ) (vector : List ℤ) :
    (log.store key vector).entry key = some vector := Finmap.lookup_insert _

theorem entry_store_of_ne (log : InMemLog) {key key' : ℤ} (h : key' ≠ key) (vector : List ℤ) :
    (log.store key vector).entry key' = log.entry key' := Finmap.lookup_insert_of_ne _ h

@[simp] theorem entry_remove_self (log : InMemLog) (key : ℤ) :
    (log.remove key).entry key = none := Finmap.lookup_erase _ _

theorem entry_remove_of_ne (log : InMemLog) {key key' : ℤ} (h : key' ≠ key) :
    (log.remove key).entry key' = log.entry key' := Finmap.lookup_erase_ne h

theorem subscript_of_entry {log : InMemLog} {key : ℤ} {vector : List ℤ}
    (h : log.entry key = some vector) : log.subscript key = (vector, log) := by
  simp only [subscript, h]

theorem subscript_of_not_hasKey {log : InMemLog} {key : ℤ} (h : log.hasKey key = false) :
    log.subscript key = ([], log.store key []) := by
  simp only [subscript, hasKey_eq_false.mp h, store]

/-- `operator[]` leaves the other keys alone. -/
theorem entry_subscript_of_ne (log : InMemLog) {key key' : ℤ} (h : key' ≠ key) :
    (log.subscript key).2.entry key' = log.entry key' := by
  cases hentry : log.entry key with
  | some vector => rw [subscript_of_entry hentry]
  | none =>
    rw [subscript_of_not_hasKey (hasKey_eq_false.mpr hentry)]
    exact log.entry_store_of_ne h []

/-- On a key that is present `size_at_key` does not touch the map. -/
theorem sizeAtKey_of_entry {log : InMemLog} {key : ℤ} {vector : List ℤ}
    (h : log.entry key = some vector) : log.sizeAtKey key = (vector.length, log) := by
  simp only [sizeAtKey, subscript_of_entry h]

theorem sizeAtKey_snd_of_hasKey {log : InMemLog} {key : ℤ} (h : log.hasKey key = true) :
    (log.sizeAtKey key).2 = log := by
  obtain ⟨vector, hentry⟩ := hasKey_eq_true.mp h
  rw [sizeAtKey_of_entry hentry]

theorem getNodeAt_of_cons {log : InMemLog} {key node : ℤ} {rest : List ℤ}
    (h : log.entry key = some (node :: rest)) : log.getNodeAt key = .ok node := by
  simp only [getNodeAt, subscript_of_entry h]

/-- `append` adds the value behind those already at its key. -/
theorem entry_append_self (log : InMemLog) (key value : ℤ) :
    (log.append key value).entry key = some ((log.entry key).getD [] ++ [value]) := by
  rw [append, entry_store_self]
  cases hentry : log.entry key with
  | some vector => rw [subscript_of_entry hentry]; rfl
  | none => rw [subscript_of_not_hasKey (hasKey_eq_false.mpr hentry)]; rfl

theorem entry_append_of_ne (log : InMemLog) {key key' : ℤ} (h : key' ≠ key) (value : ℤ) :
    (log.append key value).entry key' = log.entry key' := by
  rw [append, entry_store_of_ne _ h, entry_subscript_of_ne _ h]

/-- `insert` does not overwrite: it does what `append` does. -/
theorem insert_eq_append (log : InMemLog) (key value : ℤ) :
    log.insert key value = log.append key value := by
  apply ext_entry
  intro key'
  by_cases h : key' = key
  · subst h
    rw [entry_append_self, insert, entry_store_self]
    cases hkey : log.hasKey key' with
    | true =>
      obtain ⟨vector, hentry⟩ := hasKey_eq_true.mp hkey
      simp [subscript_of_entry hentry, hentry]
    | false =>
      have hstored : (log.store key' []).entry key' = some [] := entry_store_self _ _ _
      simp [subscript_of_entry hstored, hasKey_eq_false.mp hkey]
  · rw [entry_append_of_ne _ h, insert, entry_store_of_ne _ h, entry_subscript_of_ne _ h]
    split
    · rfl
    · exact entry_store_of_ne _ h _

/-- A value at a key makes the key present. -/
theorem hasKey_append (log : InMemLog) (key value key' : ℤ) :
    (log.append key value).hasKey key' = true ↔ key' = key ∨ log.hasKey key' = true := by
  by_cases h : key' = key
  · subst h
    simp [hasKey, entry_append_self]
  · simp [hasKey, entry_append_of_ne _ h, h]

theorem hasKey_remove (log : InMemLog) (key key' : ℤ) :
    (log.remove key).hasKey key' = true ↔ key' ≠ key ∧ log.hasKey key' = true := by
  by_cases h : key' = key
  · subst h
    simp [hasKey]
  · simp [hasKey, entry_remove_of_ne _ h, h]

/-- Adding a value always changes the log. -/
theorem append_ne (log : InMemLog) (key value : ℤ) : log.append key value ≠ log := by
  intro h
  have hentry := log.entry_append_self key value
  rw [h] at hentry
  cases hold : log.entry key with
  | none => simp [hold] at hentry
  | some vector => simp [hold] at hentry

/-- Removing a present key makes the map smaller. -/
theorem size_remove_lt {log : InMemLog} {key : ℤ} (h : log.hasKey key = true) :
    (log.remove key).size < log.size := by
  unfold size remove
  rw [Finmap.keys_erase]
  exact Finset.card_lt_card (Finset.erase_ssubset (mem_keys.mpr h))

/-- The number of keys from `key` upwards, which bounds a walk through consecutive keys. -/
def sizeFrom (log : InMemLog) (key : ℤ) : ℕ :=
  (log.replicationLog.keys.filter fun k => key ≤ k).card

/-- Stepping over a present key leaves fewer keys above. -/
theorem sizeFrom_succ_lt {log : InMemLog} {key : ℤ} (h : log.hasKey key = true) :
    log.sizeFrom (key + 1) < log.sizeFrom key := by
  apply Finset.card_lt_card
  rw [Finset.ssubset_iff_of_subset]
  · exact ⟨key, by simp [mem_keys, h], by simp⟩
  · intro k hk
    rw [Finset.mem_filter] at hk ⊢
    exact ⟨hk.1, by omega⟩

end InMemLog

end TeeReplication
