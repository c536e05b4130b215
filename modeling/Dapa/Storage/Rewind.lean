import Dapa.Storage.Balance
import Mathlib.Data.List.Nodup

/-!
# Rewinding the last topoheight of the balance store

With no snapshot open, `delete_versioned_balances_at_topoheight` at a topoheight at or above
every stored version is the rewind the pruner means. On a store whose pointers sit on the last
version of their key and whose versions each link to the greatest version below them, it
removes exactly the versions at that topoheight, moves each of their pointers to the previous
version or removes it, and leaves a store of the same shape, so a rewind can follow another.
-/

namespace Dapa.Storage

namespace BalanceStore

/-- The shape of a balance store that rewinds keep. -/
structure Linked (store : BalanceStore) : Prop where
  chain : store.ChainInvariant
  pointerAbove : ∀ key pointer, store.balances.get key = some pointer →
    ∀ topoheight version, store.versionedBalances.get (topoheight, key) = some version →
      topoheight ≤ pointer
  unpointed : ∀ key, store.balances.get key = none →
    ∀ topoheight, store.versionedBalances.get (topoheight, key) = none
  previousGreatest : ∀ key topoheight version,
    store.versionedBalances.get (topoheight, key) = some version →
    ∀ older olderVersion, store.versionedBalances.get (older, key) = some olderVersion →
      older < topoheight → ∃ previous, version.previousTopoheight = some previous ∧ older ≤ previous

theorem deleteScannedVersions_spec (topoheight : TopoHeight)
    (scanned : List (VersionedKey × VersionedBalance)) :
    ∀ {store : BalanceStore}, (scanned.map (·.1.2)).Nodup →
      (∀ entry ∈ scanned, ∃ last, store.balances.get entry.1.2 = some last ∧ topoheight ≤ last) →
      ∃ after, deleteScannedVersions topoheight scanned store = (after, .ok ()) ∧
        (∀ key, after.versionedBalances.get key =
          if key ∈ scanned.map (·.1) then none else store.versionedBalances.get key) ∧
        (∀ entry ∈ scanned, after.balances.get entry.1.2 = entry.2.previousTopoheight) ∧
        ∀ key, key ∉ scanned.map (·.1.2) → after.balances.get key = store.balances.get key := by
  induction scanned with
  | nil =>
    intro store _ _
    exact ⟨store, rfl, fun _ => rfl, fun _ member => absurd member (List.not_mem_nil _), fun _ _ => rfl⟩
  | cons entry rest ih =>
    obtain ⟨⟨versionTopoheight, key⟩, version⟩ := entry
    intro store unique pointers
    obtain ⟨fresh, unique⟩ := List.nodup_cons.mp unique
    obtain ⟨last, pointer, above⟩ := pointers _ (List.mem_cons_self _ _)
    have differs : ∀ other ∈ rest, other.1.2 ≠ key := fun other member same =>
      fresh (by simpa [same] using List.mem_map_of_mem (·.1.2) member)
    obtain ⟨after, loop, versions, moved, kept⟩ := @ih
      { versionedBalances := store.versionedBalances.remove (versionTopoheight, key),
        balances := store.balances.write key version.previousTopoheight } unique
      fun other member => by
        obtain ⟨last, pointer, above⟩ := pointers other (List.mem_cons_of_mem _ member)
        exact ⟨last, by simp [differs other member, pointer], above⟩
    refine ⟨after, ?_, fun other => ?_, ?_, fun other absent => ?_⟩
    · simpa [deleteScannedVersions, getLastTopoheightForBalance, pointer, above] using loop
    · rw [versions other]
      by_cases here : other = (versionTopoheight, key)
      · subst here
        simp [Layered.remove]
      · simp only [Layered.remove, Layered.get_write, List.map_cons, List.mem_cons, here, false_or,
          if_false]
    · rintro other (_ | ⟨_, member⟩)
      · rw [kept key fresh]
        simp
      · exact moved other member
    · simp only [List.map_cons, List.mem_cons, not_or] at absent
      rw [kept other absent.2]
      simp [absent.1]

/-- What a rewind at `topoheight` leaves of `store` in `after`. -/
structure Rewound (store after : BalanceStore) (topoheight : TopoHeight) : Prop where
  atTop : ∀ key, after.versionedBalances.get (topoheight, key) = none
  untouched : ∀ other key, other ≠ topoheight →
    after.versionedBalances.get (other, key) = store.versionedBalances.get (other, key)
  pointers : ∀ key, after.balances.get key = match store.versionedBalances.get (topoheight, key) with
    | some version => version.previousTopoheight
    | none => store.balances.get key

theorem deleteVersionedBalancesAtTopoheight_rewound (store : BalanceStore) (topoheight : TopoHeight)
    (linked : store.Linked) (noSnapshot : store.versionedBalances.pending = none)
    (unique : (store.versionedBalances.disk.map Prod.fst).Nodup) :
    ∃ after, store.deleteVersionedBalancesAtTopoheight topoheight = (after, .ok ()) ∧
      Rewound store after topoheight := by
  unfold deleteVersionedBalancesAtTopoheight
  generalize scanDef : store.versionedBalances.disk.filter (fun entry => entry.1.1 = topoheight) = scan
  have scanned : ∀ versionKey version, (versionKey, version) ∈ scan ↔
      versionKey.1 = topoheight ∧ store.versionedBalances.get versionKey = some version := by
    intro versionKey version
    rw [← scanDef, List.mem_filter, decide_eq_true_iff, Layered.get_eq_some_iff_mem noSnapshot unique,
      and_comm]
  have distinct : (scan.map (·.1.2)).Nodup := by
    have keys : (scan.map Prod.fst).Nodup := scanDef ▸ ((List.filter_sublist _).map Prod.fst).nodup unique
    rw [show scan.map (·.1.2) = (scan.map Prod.fst).map Prod.snd by simp]
    refine keys.map_on fun a inA b inB same => ?_
    obtain ⟨entryA, memA, rfl⟩ := List.mem_map.mp inA
    obtain ⟨entryB, memB, rfl⟩ := List.mem_map.mp inB
    exact Prod.ext (((scanned _ _).mp memA).1.trans ((scanned _ _).mp memB).1.symm) same
  have pointers : ∀ entry ∈ scan, ∃ last, store.balances.get entry.1.2 = some last ∧ topoheight ≤ last := by
    rintro ⟨⟨versionTopoheight, key⟩, version⟩ member
    obtain ⟨here, found⟩ := (scanned _ _).mp member
    cases pointer : store.balances.get key with
    | none => simp [linked.unpointed key pointer versionTopoheight] at found
    | some last => exact ⟨last, rfl, here ▸ linked.pointerAbove key last pointer versionTopoheight version found⟩
  obtain ⟨after, loop, versions, moved, kept⟩ := deleteScannedVersions_spec topoheight scan distinct pointers
  have inScan : ∀ versionKey, versionKey ∈ scan.map (·.1) ↔
      versionKey.1 = topoheight ∧ (store.versionedBalances.get versionKey).isSome := by
    intro versionKey
    simp only [List.mem_map, Option.isSome_iff_exists]
    constructor
    · rintro ⟨⟨_, version⟩, member, rfl⟩
      exact ⟨((scanned _ _).mp member).1, version, ((scanned _ _).mp member).2⟩
    · rintro ⟨here, version, found⟩
      exact ⟨(versionKey, version), (scanned _ _).mpr ⟨here, found⟩, rfl⟩
  refine ⟨after, loop, fun key => ?_, fun other key differs => ?_, fun key => ?_⟩
  · rw [versions]
    split_ifs with member
    · rfl
    · simpa [inScan] using member
  · rw [versions, if_neg fun member => differs ((inScan _).mp member).1]
  · cases found : store.versionedBalances.get (topoheight, key) with
    | some version => exact moved ((topoheight, key), version) ((scanned _ _).mpr ⟨rfl, found⟩)
    | none =>
      refine kept key fun member => ?_
      obtain ⟨⟨⟨_, _⟩, version⟩, inScan, rfl⟩ := List.mem_map.mp member
      obtain ⟨rfl, stored⟩ := (scanned _ _).mp inScan
      simp [found] at stored

namespace Rewound

variable {store after : BalanceStore} {topoheight : TopoHeight}

theorem remaining (rewound : Rewound store after topoheight) {other : TopoHeight} {key : BalanceKey}
    {version : VersionedBalance} (found : after.versionedBalances.get (other, key) = some version) :
    other ≠ topoheight ∧ store.versionedBalances.get (other, key) = some version := by
  by_cases here : other = topoheight
  · subst here
    simp [rewound.atTop] at found
  · exact ⟨here, (rewound.untouched other key here).symm.trans found⟩

theorem pointer_cases (rewound : Rewound store after topoheight) (key : BalanceKey) :
    (∃ top, store.versionedBalances.get (topoheight, key) = some top ∧
      after.balances.get key = top.previousTopoheight) ∨
    (store.versionedBalances.get (topoheight, key) = none ∧
      after.balances.get key = store.balances.get key) := by
  have moved := rewound.pointers key
  cases top : store.versionedBalances.get (topoheight, key) with
  | some version => exact .inl ⟨version, rfl, by simpa only [top] using moved⟩
  | none => exact .inr ⟨rfl, by simpa only [top] using moved⟩

theorem linked (rewound : Rewound store after topoheight) (linked : store.Linked)
    (highest : ∀ other key version,
      store.versionedBalances.get (other, key) = some version → other ≤ topoheight) :
    after.Linked := by
  refine ⟨⟨fun key pointer found => ?_, fun other key version found previous link => ?_⟩,
    fun key pointer found other version stored => ?_, fun key absent other => ?_,
    fun key newer version found older olderVersion foundOlder smaller =>
      linked.previousGreatest key newer version (rewound.remaining found).2 older olderVersion
        (rewound.remaining foundOlder).2 smaller⟩
  · rcases rewound.pointer_cases key with ⟨top, stored, moved⟩ | ⟨none, kept⟩
    · obtain ⟨smaller, _⟩ := linked.chain.2 topoheight key top stored pointer (moved.symm.trans found)
      rwa [rewound.untouched _ _ (topoheight_ne_of_lt smaller)]
    · have stored := linked.chain.1 key pointer (kept.symm.trans found)
      have differs : pointer ≠ topoheight := fun same => by simp [same, none] at stored
      rwa [rewound.untouched _ _ differs]
  · obtain ⟨-, stored⟩ := rewound.remaining found
    obtain ⟨smaller, _⟩ := linked.chain.2 other key version stored previous link
    have below : previous < topoheight := by
      have := topoheight_lt_iff.mp smaller
      have := topoheight_le_iff.mp (highest other key version stored)
      exact topoheight_lt_iff.mpr (by omega)
    exact ⟨smaller, by rwa [rewound.untouched _ _ (topoheight_ne_of_lt below)]⟩
  · obtain ⟨differs, stored⟩ := rewound.remaining stored
    have older := topoheight_lt_of_le_of_ne (highest other key version stored) differs
    rcases rewound.pointer_cases key with ⟨top, storedTop, moved⟩ | ⟨-, kept⟩
    · obtain ⟨previous, link, above⟩ :=
        linked.previousGreatest key topoheight top storedTop other version stored older
      obtain rfl : previous = pointer := Option.some.inj (link.symm.trans (moved.symm.trans found))
      exact above
    · exact linked.pointerAbove key pointer (kept.symm.trans found) other version stored
  · cases found : after.versionedBalances.get (other, key) with
    | none => rfl
    | some version =>
      obtain ⟨differs, stored⟩ := rewound.remaining found
      have older := topoheight_lt_of_le_of_ne (highest other key version stored) differs
      rcases rewound.pointer_cases key with ⟨top, storedTop, moved⟩ | ⟨-, kept⟩
      · obtain ⟨previous, link, -⟩ :=
          linked.previousGreatest key topoheight top storedTop other version stored older
        cases link.symm.trans (moved.symm.trans absent)
      · simp [linked.unpointed key (kept.symm.trans absent) other] at stored

end Rewound

/-- With no snapshot, one entry per key and no version above `topoheight`, the rewind ends with
`Ok`, keeps the store `Linked` and moves each pointer back as `Rewound` says. -/
theorem rewind_without_snapshot (store : BalanceStore) (topoheight : TopoHeight)
    (linked : store.Linked) (noSnapshot : store.versionedBalances.pending = none)
    (unique : (store.versionedBalances.disk.map Prod.fst).Nodup)
    (highest : ∀ other key version,
      store.versionedBalances.get (other, key) = some version → other ≤ topoheight) :
    ∃ after, store.deleteVersionedBalancesAtTopoheight topoheight = (after, .ok ()) ∧ after.Linked ∧
      (∀ key, after.versionedBalances.get (topoheight, key) = none) ∧
      (∀ other key, other ≠ topoheight →
        after.versionedBalances.get (other, key) = store.versionedBalances.get (other, key)) ∧
      ∀ key, after.balances.get key = match store.versionedBalances.get (topoheight, key) with
        | some version => version.previousTopoheight
        | none => store.balances.get key := by
  obtain ⟨after, run, rewound⟩ :=
    deleteVersionedBalancesAtTopoheight_rewound store topoheight linked noSnapshot unique
  exact ⟨after, run, rewound.linked linked highest, rewound.atTop, rewound.untouched, rewound.pointers⟩

def twoVersionsOnDisk : BalanceStore :=
  ⟨⟨[(zeroBalanceKey, 5)], none⟩,
    ⟨[((5, zeroBalanceKey), ⟨some 2, .output⟩), ((2, zeroBalanceKey), ⟨none, .input⟩)], none⟩⟩

theorem rewind_without_snapshot_two_versions :
    twoVersionsOnDisk.Linked ∧ twoVersionsOnDisk.versionedBalances.pending = none ∧
      (twoVersionsOnDisk.versionedBalances.disk.map Prod.fst).Nodup ∧
      (∀ other key version, twoVersionsOnDisk.versionedBalances.get (other, key) = some version →
        other ≤ 5) ∧
      ∃ after, twoVersionsOnDisk.deleteVersionedBalancesAtTopoheight 5 = (after, .ok ()) ∧
        after.balances.get zeroBalanceKey = some 2 := by
  have pointer : ∀ key topoheight, twoVersionsOnDisk.balances.get key = some topoheight ↔
      key = zeroBalanceKey ∧ topoheight = 5 := fun key topoheight => by
    rw [Layered.get_eq_some_iff_mem rfl (by decide)]
    simp [twoVersionsOnDisk]
  have stored : ∀ topoheight key version,
      twoVersionsOnDisk.versionedBalances.get (topoheight, key) = some version ↔
        key = zeroBalanceKey ∧ (topoheight = 5 ∧ version = ⟨some 2, .output⟩ ∨
          topoheight = 2 ∧ version = ⟨none, .input⟩) := fun topoheight key version => by
    rw [Layered.get_eq_some_iff_mem rfl (by decide)]
    simp only [twoVersionsOnDisk, List.mem_cons, Prod.mk.injEq, List.mem_singleton,
      List.not_mem_nil, or_false]
    tauto
  have highest : ∀ other key version,
      twoVersionsOnDisk.versionedBalances.get (other, key) = some version → other ≤ 5 := by
    intro other key version found
    rcases (stored _ _ _).mp found with ⟨-, ⟨rfl, -⟩ | ⟨rfl, -⟩⟩ <;> decide
  have linked : twoVersionsOnDisk.Linked := by
    refine ⟨chainInvariant_of_chainChecked (by decide), ?_, ?_, ?_⟩
    · intro key topoheight found other version storedOther
      obtain ⟨-, rfl⟩ := (pointer _ _).mp found
      exact highest other key version storedOther
    · intro key absent other
      cases found : twoVersionsOnDisk.versionedBalances.get (other, key) with
      | none => rfl
      | some version =>
        obtain ⟨rfl, -⟩ := (stored _ _ _).mp found
        cases absent.symm.trans ((pointer _ _).mpr ⟨rfl, rfl⟩)
    · intro key newer version found older olderVersion foundOlder smaller
      rcases (stored _ _ _).mp found with ⟨-, ⟨rfl, rfl⟩ | ⟨rfl, rfl⟩⟩ <;>
        rcases (stored _ _ _).mp foundOlder with ⟨-, ⟨rfl, -⟩ | ⟨rfl, -⟩⟩
      · exact absurd smaller (by decide)
      · exact ⟨2, rfl, by decide⟩
      · exact absurd smaller (by decide)
      · exact absurd smaller (by decide)
  have unique : (twoVersionsOnDisk.versionedBalances.disk.map Prod.fst).Nodup := by decide
  obtain ⟨after, run, -, -, -, moved⟩ := rewind_without_snapshot twoVersionsOnDisk 5 linked rfl unique highest
  exact ⟨linked, rfl, unique, highest, after, run, (moved zeroBalanceKey).trans rfl⟩

end BalanceStore

end Dapa.Storage
