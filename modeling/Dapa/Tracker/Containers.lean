import Mathlib.Data.List.Nodup

/-!
# The tracker's keyed containers

`Queue` is the insertion-ordered map `dapa_common::queue::Queue` that holds the tracker's
requests, and `ExpirableCache` the map from hash to insertion instant that absorbs late
responses. Both are lists of pairs read as maps: `get` finds the entry of a key, and a
removal drops the entries of its key.
-/

namespace Dapa.Tracker

/-- Modelled from the spec: `dapa_common::queue::Queue` (not in this repository), an
insertion-ordered map. -/
abbrev Queue (K V : Type) := List (K × V)

namespace Queue
variable {K V : Type}

def keys (queue : Queue K V) : List K := queue.map Prod.fst

def push (queue : Queue K V) (key : K) (value : V) : Queue K V := queue ++ [(key, value)]

/-- `peek_mut`: the oldest entry, left in place. -/
def peek (queue : Queue K V) : Option (K × V) := queue.head?

@[simp] theorem keys_nil : keys ([] : Queue K V) = [] := rfl

@[simp] theorem keys_push (queue : Queue K V) (key : K) (value : V) :
    (queue.push key value).keys = queue.keys ++ [key] := by
  simp [keys, push]

theorem mem_keys {queue : Queue K V} {key : K} : key ∈ queue.keys ↔ ∃ value, (key, value) ∈ queue := by
  simp [keys]

theorem mem_keys_of_mem {queue : Queue K V} {entry : K × V} (member : entry ∈ queue) :
    entry.1 ∈ queue.keys :=
  List.mem_map_of_mem _ member

theorem keys_sublist_of_sublist {small large : Queue K V} (sub : List.Sublist small large) :
    List.Sublist small.keys large.keys :=
  sub.map _

theorem keys_filter_sublist (queue : Queue K V) (p : K × V → Bool) :
    List.Sublist (keys (queue.filter p)) queue.keys :=
  keys_sublist_of_sublist (List.filter_sublist _)

variable [DecidableEq K]

def get (queue : Queue K V) (key : K) : Option V := queue.lookup key

/-- `get_mut` followed by a write through the reference. -/
def modify (queue : Queue K V) (key : K) (f : V → V) : Queue K V :=
  queue.map fun entry => if entry.1 = key then (entry.1, f entry.2) else entry

def remove (queue : Queue K V) (key : K) : Option V × Queue K V :=
  (queue.get key, queue.filter fun entry => entry.1 ≠ key)

def extractIf (queue : Queue K V) (p : K → V → Bool) : Queue K V × Queue K V :=
  (queue.filter fun entry => !p entry.1 entry.2, queue.filter fun entry => p entry.1 entry.2)

@[simp] theorem keys_modify (queue : Queue K V) (key : K) (f : V → V) :
    (queue.modify key f).keys = queue.keys := by
  simp only [keys, modify, List.map_map]
  apply List.map_congr_left
  intro entry _
  by_cases same : entry.1 = key <;> simp [same]

theorem get_eq_none {queue : Queue K V} {key : K} : queue.get key = none ↔ key ∉ queue.keys := by
  simp only [get, List.lookup_eq_none_iff, keys, List.mem_map, bne_iff_ne, ne_eq, not_exists,
    not_and]
  exact ⟨fun absent entry member same => absent entry member same.symm,
    fun absent entry member same => absent entry member same.symm⟩

theorem mem_of_get {queue : Queue K V} {key : K} {value : V} (found : queue.get key = some value) :
    (key, value) ∈ queue := by
  obtain ⟨before, after, split, -⟩ := List.lookup_eq_some_iff.mp found
  simp [split]

theorem get_of_mem {queue : Queue K V} {key : K} {value : V} (unique : queue.keys.Nodup)
    (member : (key, value) ∈ queue) : queue.get key = some value := by
  induction queue with
  | nil => simp at member
  | cons entry rest ih =>
    obtain ⟨k, v⟩ := entry
    simp only [keys, List.map_cons, List.nodup_cons] at unique
    rcases List.mem_cons.mp member with same | later
    · simp [get, ← same]
    · have different : k ≠ key := fun same => unique.1 (same ▸ List.mem_map_of_mem _ later)
      have skip : (key == k) = false := beq_false_of_ne (Ne.symm different)
      simpa only [get, List.lookup_cons, skip] using ih unique.2 later

theorem mem_modify {queue : Queue K V} {key : K} {f : V → V} {entry : K × V} :
    entry ∈ queue.modify key f ↔
      ∃ old, (entry.1, old) ∈ queue ∧ entry.2 = if entry.1 = key then f old else old := by
  simp only [modify, List.mem_map]
  constructor
  · rintro ⟨⟨k, v⟩, member, rfl⟩
    by_cases same : k = key
    · exact ⟨v, by simpa [same] using member, by simp [same]⟩
    · exact ⟨v, by simpa [same] using member, by simp [same]⟩
  · obtain ⟨k, v⟩ := entry
    rintro ⟨old, member, value⟩
    refine ⟨(k, old), member, ?_⟩
    by_cases same : k = key <;> simp [same] at value ⊢ <;> simp [value]

theorem extractIf_keys_disjoint {queue : Queue K V} (unique : queue.keys.Nodup)
    (p : K → V → Bool) {key : K} (taken : key ∈ (queue.extractIf p).2.keys) :
    key ∉ (queue.extractIf p).1.keys := by
  simp only [extractIf, mem_keys, List.mem_filter] at taken ⊢
  rintro ⟨kept, keptMember, keptSelected⟩
  obtain ⟨value, member, selected⟩ := taken
  have same := (get_of_mem unique member).symm.trans (get_of_mem unique keptMember)
  cases same
  simp [selected] at keptSelected

end Queue

/-- `ExpirableCache`: the hash-to-`Instant` map behind its mutex. -/
abbrev ExpirableCache (K : Type) := Queue K Nat

namespace ExpirableCache
variable {K : Type} [DecidableEq K]

def insert (cache : ExpirableCache K) (hash : K) (now : Nat) : ExpirableCache K :=
  (cache.filter fun entry => entry.1 ≠ hash) ++ [(hash, now)]

def remove (cache : ExpirableCache K) (hash : K) : Bool × ExpirableCache K :=
  ((Queue.get cache hash).isSome, cache.filter fun entry => entry.1 ≠ hash)

def clean (cache : ExpirableCache K) (timeout now : Nat) : ExpirableCache K :=
  cache.filter fun entry => now - entry.2 < timeout

@[simp] theorem mem_insert {cache : ExpirableCache K} {hash : K} {now : Nat} {entry : K × Nat} :
    entry ∈ cache.insert hash now ↔ (entry ∈ cache ∧ entry.1 ≠ hash) ∨ entry = (hash, now) := by
  simp [insert]

@[simp] theorem mem_remove {cache : ExpirableCache K} {hash : K} {entry : K × Nat} :
    entry ∈ (cache.remove hash).2 ↔ entry ∈ cache ∧ entry.1 ≠ hash := by
  simp [remove]

omit [DecidableEq K] in
@[simp] theorem mem_clean {cache : ExpirableCache K} {timeout now : Nat} {entry : K × Nat} :
    entry ∈ cache.clean timeout now ↔ entry ∈ cache ∧ now - entry.2 < timeout := by
  simp [clean]

theorem mem_foldl_insert {now : Nat} (hashes : List K) (cache : ExpirableCache K) (entry : K × Nat) :
    entry ∈ hashes.foldl (fun cache hash => cache.insert hash now) cache ↔
      (entry ∈ cache ∧ entry.1 ∉ hashes) ∨ (entry.1 ∈ hashes ∧ entry.2 = now) := by
  induction hashes generalizing cache with
  | nil => simp
  | cons hash rest ih =>
    obtain ⟨key, time⟩ := entry
    simp only [List.foldl_cons, ih, mem_insert, List.mem_cons, Prod.mk.injEq]
    by_cases later : key ∈ rest
    · simp [later]
    · by_cases same : key = hash
      · subst same
        simp [later]
      · simp [same, later]

theorem remove_found (cache : ExpirableCache K) (hash : K) :
    (cache.remove hash).1 = decide (hash ∈ Queue.keys cache) := by
  simp only [remove, Queue.get, Queue.keys, List.mem_map]
  rw [Bool.eq_iff_iff, List.lookup_isSome_iff, decide_eq_true_iff]
  simp only [beq_iff_eq]
  exact ⟨fun ⟨entry, member, same⟩ => ⟨entry, member, same.symm⟩,
    fun ⟨entry, member, same⟩ => ⟨entry, member, same.symm⟩⟩

end ExpirableCache

end Dapa.Tracker
