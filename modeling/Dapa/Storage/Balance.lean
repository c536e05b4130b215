import Dapa.Storage.MultisigVersions

/-!
# Pruning versioned balances

`SledStorage` keeps, per account and asset, a pointer to the last balance version (the
`balances` tree) and the versions themselves (the `versioned_balances` tree, keyed by
`topoheight.to_be_bytes() ++ account ++ asset`). Each version names the topoheight of the one
before it. While a snapshot is open, writes go to the snapshot and reads look there first.

`delete_versioned_balances_at_topoheight` removes the versions of one topoheight and moves
their pointers back; it finds the versions with `scan_prefix` on the tree itself, which does
not see the snapshot. `delete_versioned_balances_below_topoheight` with `keep_last` walks each
pointer's chain and, below the first version holding an output, deletes every version; it never
compares a version with the topoheight it is given. An asset's hash, `BalanceType` and
`VersionedBalance` (without its encrypted balances) are modelled from the spec: their source is
not in this repository.
-/

namespace Dapa.Storage

abbrev Hash := List UInt8

inductive BalanceType where
  | input
  | output
  | both
  deriving DecidableEq, Repr

def BalanceType.containsOutput : BalanceType → Bool
  | .input => false
  | .output | .both => true

structure VersionedBalance where
  previousTopoheight : Option TopoHeight
  balanceType : BalanceType
  deriving DecidableEq, Repr

/-- `get_balance_key_for`: the account's bytes followed by the asset's, kept as the pair. -/
structure BalanceKey where
  account : PublicKey
  asset : Hash
  deriving DecidableEq

/-- `get_versioned_key`: `topoheight.to_be_bytes()` followed by the balance key, kept as the pair. -/
abbrev VersionedKey := TopoHeight × BalanceKey

/-! ### Trees under a snapshot -/

/-- Modelled from the spec: a sled tree of `SledStorage`, its entries on disk and the open snapshot's
writes to it (`none` for a removal). -/
structure Layered (K V : Type) where
  disk : List (K × V)
  pending : Option (List (K × Option V))

namespace Layered

variable {K V : Type} [DecidableEq K]

/-- Modelled from the spec: `load_optional_from_disk`, the snapshot first. -/
def get (tree : Layered K V) (key : K) : Option V :=
  match tree.pending.bind (·.lookup key) with
  | some entry => entry
  | none => tree.disk.lookup key

/-- Modelled from the spec: `insert_into_disk` (`some`) and `remove_from_disk_without_reading`
(`none`), into the snapshot when one is open. -/
def write (tree : Layered K V) (key : K) (entry : Option V) : Layered K V :=
  match tree.pending with
  | some writes => { tree with pending := some (insertEntry writes key entry) }
  | none =>
    match entry with
    | some value => { tree with disk := insertEntry tree.disk key value }
    | none => { tree with disk := removeEntry tree.disk key }

def insert (tree : Layered K V) (key : K) (value : V) : Layered K V :=
  tree.write key (some value)

def remove (tree : Layered K V) (key : K) : Layered K V :=
  tree.write key none

@[simp] theorem get_write (tree : Layered K V) (key other : K) (entry : Option V) :
    (tree.write key entry).get other = if other = key then entry else tree.get other := by
  obtain ⟨disk, pending⟩ := tree
  by_cases same : other = key
  · subst same
    cases pending <;> cases entry <;> simp [write, get, lookup_insertEntry, lookup_removeEntry]
  · cases pending <;> cases entry <;> simp [write, get, lookup_insertEntry, lookup_removeEntry, same]

def listed (tree : Layered K V) : List (K × V) :=
  (tree.pending.getD []).filterMap (fun entry => entry.2.map fun value => (entry.1, value)) ++ tree.disk

theorem mem_of_lookup_eq_some {entries : List (K × V)} {key : K} {value : V}
    (found : entries.lookup key = some value) : (key, value) ∈ entries := by
  obtain ⟨before, after, rfl, -⟩ := List.lookup_eq_some_iff.mp found
  simp

theorem mem_listed_of_get {tree : Layered K V} {key : K} {value : V}
    (found : tree.get key = some value) : (key, value) ∈ tree.listed := by
  obtain ⟨disk, pending⟩ := tree
  simp only [listed, List.mem_append, List.mem_filterMap]
  cases pending with
  | none => exact .inr (mem_of_lookup_eq_some found)
  | some writes =>
    cases written : writes.lookup key with
    | none =>
      simp only [get, Option.some_bind, written] at found
      exact .inr (mem_of_lookup_eq_some found)
    | some entry =>
      simp only [get, Option.some_bind, written] at found
      exact .inl ⟨(key, entry), mem_of_lookup_eq_some written, by simp [found]⟩

theorem get_eq_some_iff_mem {tree : Layered K V} {key : K} {value : V} (noSnapshot : tree.pending = none)
    (unique : (tree.disk.map Prod.fst).Nodup) : tree.get key = some value ↔ (key, value) ∈ tree.disk := by
  obtain ⟨disk, pending⟩ := tree
  cases noSnapshot
  exact ⟨mem_of_lookup_eq_some, lookup_of_mem_nodup unique⟩

end Layered

structure BalanceStore where
  balances : Layered BalanceKey TopoHeight
  versionedBalances : Layered VersionedKey VersionedBalance

namespace BalanceStore

/-- Modelled from the spec: `get_last_topoheight_for_balance`; it fails on a missing pointer. -/
def getLastTopoheightForBalance (store : BalanceStore) (key : BalanceKey) :
    Except BlockchainError TopoHeight :=
  match store.balances.get key with
  | some topoheight => .ok topoheight
  | none => .error .notFoundOnDisk

/-! ### `delete_versioned_balances_at_topoheight` -/

/-- The `for` loop of `delete_versioned_balances_at_topoheight` over the scanned versions. -/
def deleteScannedVersions (topoheight : TopoHeight) :
    List (VersionedKey × VersionedBalance) → BalanceStore → BalanceStore × Except BlockchainError Unit
  | [], store => (store, .ok ())
  | ((versionTopoheight, key), version) :: rest, store =>
    let store := { store with versionedBalances := store.versionedBalances.remove (versionTopoheight, key) }
    match store.getLastTopoheightForBalance key with
    | .error error => (store, .error error)
    | .ok lastTopoheight =>
      let store :=
        if lastTopoheight ≥ topoheight then
          { store with balances := store.balances.write key version.previousTopoheight }
        else store
      deleteScannedVersions topoheight rest store

/-- `delete_versioned_balances_at_topoheight`; `scan_prefix` reads the tree on disk only. -/
def deleteVersionedBalancesAtTopoheight (store : BalanceStore) (topoheight : TopoHeight) :
    BalanceStore × Except BlockchainError Unit :=
  deleteScannedVersions topoheight (store.versionedBalances.disk.filter fun entry => entry.1.1 = topoheight)
    store

/-! ### `delete_versioned_balances_below_topoheight` with `keep_last` -/

/-- The `while let Some(prev_topo) = prev_version` loop of `delete_versioned_balances_below_topoheight`,
with at most `fuel` passes. `remove_from_disk` is not in the repository: the model takes it to
return the removed version's previous topoheight, and `None` for an absent key, which ends the walk. -/
def keepLastLoop (key : BalanceKey) :
    Nat → Bool → Option TopoHeight → BalanceStore → Option (BalanceStore × Except BlockchainError Unit)
  | _, _, none, store => some (store, .ok ())
  | 0, _, some _, _ => none
  | fuel + 1, true, some previous, store =>
    let removed := store.versionedBalances.get (previous, key)
    keepLastLoop key fuel true (removed.bind (·.previousTopoheight))
      { store with versionedBalances := store.versionedBalances.remove (previous, key) }
  | fuel + 1, false, some previous, store =>
    match store.versionedBalances.get (previous, key) with
    | none => some (store, .error .notFoundOnDisk)
    | some version =>
      keepLastLoop key fuel version.balanceType.containsOutput version.previousTopoheight store

def keepLastPass :
    List (BalanceKey × TopoHeight) → BalanceStore → Option (BalanceStore × Except BlockchainError Unit)
  | [], store => some (store, .ok ())
  | (key, topoheight) :: rest, store =>
    match store.versionedBalances.get (topoheight, key) with
    | none => some (store, .error .notFoundOnDisk)
    | some latest =>
      match keepLastLoop key MultisigStore.chainFuel false latest.previousTopoheight store with
      | some (store, .ok ()) => keepLastPass rest store
      | result => result

/-- `delete_versioned_balances_below_topoheight`, with `delete_versioned_tree_below_topoheight`
(not in the repository) as a parameter. -/
def deleteVersionedBalancesBelowTopoheight
    (deleteVersionedTreeBelowTopoheight :
      BalanceStore → TopoHeight → Bool → BalanceStore × Except BlockchainError Unit)
    (store : BalanceStore) (topoheight : TopoHeight) (keepLast : Bool) :
    Option (BalanceStore × Except BlockchainError Unit) :=
  if !keepLast then some (deleteVersionedTreeBelowTopoheight store topoheight keepLast)
  else keepLastPass store.balances.disk store

/-! ### The chain invariant -/

/-- Every pointer names a stored version, and every previous topoheight is smaller and stored. -/
def ChainInvariant (store : BalanceStore) : Prop :=
  (∀ key topoheight, store.balances.get key = some topoheight →
    (store.versionedBalances.get (topoheight, key)).isSome) ∧
  ∀ topoheight key version, store.versionedBalances.get (topoheight, key) = some version →
    ∀ previous, version.previousTopoheight = some previous →
      previous < topoheight ∧ (store.versionedBalances.get (previous, key)).isSome

def chainChecked (store : BalanceStore) : Bool :=
  (store.balances.listed.all fun pointer => (store.versionedBalances.get (pointer.2, pointer.1)).isSome) &&
    store.versionedBalances.listed.all fun entry =>
      match entry.2.previousTopoheight with
      | none => true
      | some previous =>
        decide (previous < entry.1.1) && (store.versionedBalances.get (previous, entry.1.2)).isSome

theorem chainInvariant_of_chainChecked {store : BalanceStore} (checked : store.chainChecked = true) :
    store.ChainInvariant := by
  simp only [chainChecked, Bool.and_eq_true, List.all_eq_true] at checked
  obtain ⟨pointers, versions⟩ := checked
  refine ⟨fun key topoheight pointer => pointers _ (Layered.mem_listed_of_get pointer),
    fun topoheight key version stored previous link => ?_⟩
  have checkedVersion := versions _ (Layered.mem_listed_of_get stored)
  simp only [link, Bool.and_eq_true, decide_eq_true_eq] at checkedVersion
  exact checkedVersion

def zeroBalanceKey : BalanceKey := ⟨zeroAccount, List.replicate 32 0⟩

def pendingVersionAtFive : BalanceStore :=
  ⟨⟨[(zeroBalanceKey, 4)], some [(zeroBalanceKey, some 5)]⟩,
    ⟨[((4, zeroBalanceKey), ⟨none, .output⟩)],
      some [((5, zeroBalanceKey), some ⟨some 4, .input⟩)]⟩⟩

/-- Rewinding `5` leaves the store as it was: the version at `5` is only in the snapshot, which
`scan_prefix` does not read. -/
theorem rewind_keeps_snapshot_version :
    pendingVersionAtFive.ChainInvariant ∧
      (∀ topoheight key version,
        pendingVersionAtFive.versionedBalances.get (topoheight, key) = some version → topoheight ≤ 5) ∧
      pendingVersionAtFive.deleteVersionedBalancesAtTopoheight 5 = (pendingVersionAtFive, .ok ()) ∧
      pendingVersionAtFive.versionedBalances.get (5, zeroBalanceKey) = some ⟨some 4, .input⟩ ∧
      pendingVersionAtFive.balances.get zeroBalanceKey = some 5 := by
  have bounded : ∀ entry ∈ pendingVersionAtFive.versionedBalances.listed, entry.1.1 ≤ 5 := by decide
  exact ⟨chainInvariant_of_chainChecked (by decide),
    fun topoheight key version stored => bounded _ (Layered.mem_listed_of_get stored), rfl, rfl, rfl⟩

def outputBelowLast : BalanceStore :=
  ⟨⟨[(zeroBalanceKey, 3)], none⟩,
    ⟨[((3, zeroBalanceKey), ⟨some 2, .input⟩), ((2, zeroBalanceKey), ⟨some 1, .output⟩),
      ((1, zeroBalanceKey), ⟨none, .input⟩)], none⟩⟩

/-- With `keep_last` the walk deletes the version at `1`, although the threshold `0` is below it. -/
theorem keep_last_prunes_above_threshold
    (deleteVersionedTreeBelowTopoheight :
      BalanceStore → TopoHeight → Bool → BalanceStore × Except BlockchainError Unit) :
    outputBelowLast.ChainInvariant ∧
      ∃ after, deleteVersionedBalancesBelowTopoheight deleteVersionedTreeBelowTopoheight
          outputBelowLast 0 true = some (after, .ok ()) ∧
        outputBelowLast.versionedBalances.get (1, zeroBalanceKey) = some ⟨none, .input⟩ ∧
        after.versionedBalances.get (1, zeroBalanceKey) = none ∧
        after.versionedBalances.get (2, zeroBalanceKey) = some ⟨some 1, .output⟩ ∧
        after.versionedBalances.get (3, zeroBalanceKey) = some ⟨some 2, .input⟩ := by
  exact ⟨chainInvariant_of_chainChecked (by decide), _, rfl, rfl, rfl, rfl, rfl⟩

end BalanceStore

end Dapa.Storage
