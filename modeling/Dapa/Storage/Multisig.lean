import Mathlib.Data.List.Infix

/-!
# Versioned multisig keys

`get_versioned_multisig_key` lays a multisig version out as the account's 32 bytes followed by
the topoheight's 8 big-endian bytes. The versioned balance pruner selects the versions of a
topoheight with `scan_prefix(topoheight.to_be_bytes())`, the account coming after that prefix.
Under the multisig layout the first 8 bytes of a key are the account's first 8 bytes: a scan
of `topoheight.to_be_bytes()` selects versions by account, not by the topoheight they were
written at.
-/

namespace Dapa.Storage

abbrev TopoHeight := UInt64

theorem topoheight_le_iff {a b : TopoHeight} : a ≤ b ↔ a.toNat ≤ b.toNat := Iff.rfl

theorem topoheight_lt_iff {a b : TopoHeight} : a < b ↔ a.toNat < b.toNat := Iff.rfl

theorem topoheight_ne_of_lt {a b : TopoHeight} (smaller : a < b) : a ≠ b := fun same => by
  have := topoheight_lt_iff.mp smaller
  rw [same] at this
  omega

theorem topoheight_lt_of_le_of_ne {a b : TopoHeight} (below : a ≤ b) (differs : a ≠ b) : a < b :=
  topoheight_lt_iff.mpr (Nat.lt_of_le_of_ne (topoheight_le_iff.mp below) fun same => differs (UInt64.toNat.inj same))

def toBeBytes (value : UInt64) : List UInt8 :=
  ([56, 48, 40, 32, 24, 16, 8, 0] : List UInt64).map fun shift => (value >>> shift).toUInt8

@[simp] theorem toBeBytes_length (value : UInt64) : (toBeBytes value).length = 8 := rfl

/-- A public key, as the 32 bytes `as_bytes` returns. -/
structure PublicKey where
  bytes : List UInt8
  size : bytes.length = 32
deriving DecidableEq

/-- `get_versioned_multisig_key`: `key[..32]` is the account, `key[32..]` the topoheight. -/
def getVersionedMultisigKey (account : PublicKey) (topoheight : TopoHeight) : List UInt8 :=
  account.bytes ++ toBeBytes topoheight

theorem getVersionedMultisigKey_length (account : PublicKey) (topoheight : TopoHeight) :
    (getVersionedMultisigKey account topoheight).length = 40 := by
  simp [getVersionedMultisigKey, account.size]

theorem getVersionedMultisigKey_drop (account : PublicKey) (topoheight : TopoHeight) :
    (getVersionedMultisigKey account topoheight).drop 32 = toBeBytes topoheight := by
  simp [getVersionedMultisigKey, ← account.size]

theorem toBeBytes_prefix_getVersionedMultisigKey (account : PublicKey) (topoheight other : TopoHeight) :
    (toBeBytes other).isPrefixOf (getVersionedMultisigKey account topoheight) ↔
      account.bytes.take 8 = toBeBytes other := by
  rw [List.isPrefixOf_iff_prefix, List.prefix_iff_eq_take, toBeBytes_length, eq_comm,
    getVersionedMultisigKey, List.take_append_of_le_length (by simp [account.size])]

/-! ### Sled trees as keyed lists -/

section Entries

variable {K V : Type} [DecidableEq K]

/-- sled's `Tree::insert`, which `insert_into_disk` calls when no snapshot is open. -/
def insertEntry (entries : List (K × V)) (key : K) (value : V) : List (K × V) :=
  (key, value) :: entries.filter fun entry => entry.1 != key

def removeEntry (entries : List (K × V)) (key : K) : List (K × V) :=
  entries.filter fun entry => entry.1 != key

theorem lookup_cons_eq_ite (k other : K) (v : V) (entries : List (K × V)) :
    ((k, v) :: entries).lookup other = if other = k then some v else entries.lookup other := by
  by_cases same : other = k
  · simp [same]
  · simp [List.lookup_cons, beq_false_of_ne same, same]

theorem lookup_removeEntry (entries : List (K × V)) (key other : K) :
    (removeEntry entries key).lookup other = if other = key then none else entries.lookup other := by
  induction entries with
  | nil => simp [removeEntry]
  | cons entry entries ih =>
    obtain ⟨k, v⟩ := entry
    by_cases same : k = key
    · subst same
      have dropped : removeEntry ((k, v) :: entries) k = removeEntry entries k := by simp [removeEntry]
      rw [dropped, ih, lookup_cons_eq_ite]
      split_ifs <;> rfl
    · have kept : removeEntry ((k, v) :: entries) key = (k, v) :: removeEntry entries key := by
        simp [removeEntry, same]
      rw [kept, lookup_cons_eq_ite, ih, lookup_cons_eq_ite]
      by_cases found : other = k
      · simp [found, same]
      · simp [found]

theorem lookup_insertEntry (entries : List (K × V)) (key other : K) (value : V) :
    (insertEntry entries key value).lookup other =
      if other = key then some value else entries.lookup other := by
  have rest := lookup_removeEntry entries key other
  by_cases same : other = key <;> simp_all [insertEntry, removeEntry, lookup_cons_eq_ite]

theorem lookup_of_mem_nodup {entries : List (K × V)} {key : K} {value : V}
    (unique : (entries.map Prod.fst).Nodup) (member : (key, value) ∈ entries) :
    entries.lookup key = some value := by
  induction entries with
  | nil => cases member
  | cons entry entries ih =>
    obtain ⟨fresh, unique⟩ := List.nodup_cons.mp unique
    rcases List.mem_cons.mp member with same | later
    · simp [← same]
    · have differs : key ≠ entry.1 := fun same => fresh (same ▸ List.mem_map_of_mem Prod.fst later)
      rw [← ih unique later]
      exact lookup_cons_eq_ite entry.1 key entry.2 entries ▸ if_neg differs

end Entries

/-! ### The versioned multisig tree -/

abbrev Tree := List (List UInt8 × List UInt8)

def scanPrefix (tree : Tree) (keyPrefix : List UInt8) : Tree :=
  tree.filter fun entry => keyPrefix.isPrefixOf entry.1

/-- `set_multisig_at_topoheight_for`, on the versions tree as encoded bytes or as decoded versions. -/
def setMultisigAtTopoheightFor {V : Type} (versionedMultisigs : List (List UInt8 × V)) (account : PublicKey)
    (topoheight : TopoHeight) (multisig : V) : List (List UInt8 × V) :=
  insertEntry versionedMultisigs (getVersionedMultisigKey account topoheight) multisig

/-- Modelled from the spec: `delete_versioned_tree_at_topoheight` (not in the repository), as
`delete_versioned_balances_at_topoheight` scans a topoheight's prefix. -/
def deleteVersionedMultisigsAtTopoheight (versionedMultisigs : Tree) (topoheight : TopoHeight) :
    Tree :=
  versionedMultisigs.filter fun entry => entry ∉ scanPrefix versionedMultisigs (toBeBytes topoheight)

theorem mem_deleteVersionedMultisigsAtTopoheight {versionedMultisigs : Tree}
    {account : PublicKey} {written topoheight : TopoHeight} {multisig : List UInt8}
    (stored : (getVersionedMultisigKey account written, multisig) ∈ versionedMultisigs) :
    (getVersionedMultisigKey account written, multisig) ∈
        deleteVersionedMultisigsAtTopoheight versionedMultisigs topoheight ↔
      account.bytes.take 8 ≠ toBeBytes topoheight := by
  simp only [deleteVersionedMultisigsAtTopoheight, scanPrefix, List.mem_filter, stored,
    true_and, decide_eq_true_eq, toBeBytes_prefix_getVersionedMultisigKey]

def zeroAccount : PublicKey := ⟨List.replicate 32 0, rfl⟩

/-- A multisig version begins with its account's bytes, so the pruner deletes versions by
account: the zero account's version at `5` survives deleting `5` and goes with `0`. -/
theorem multisig_version_pruned_by_account :
    (toBeBytes 0).isPrefixOf (getVersionedMultisigKey zeroAccount 5) = true ∧
      (toBeBytes 5).isPrefixOf (getVersionedMultisigKey zeroAccount 5) = false ∧
      deleteVersionedMultisigsAtTopoheight (setMultisigAtTopoheightFor [] zeroAccount 5 [1]) 5 =
        setMultisigAtTopoheightFor [] zeroAccount 5 [1] ∧
      deleteVersionedMultisigsAtTopoheight (setMultisigAtTopoheightFor [] zeroAccount 5 [1]) 0 = [] := by
  decide

end Dapa.Storage
