import Dapa.Storage.Balance

/-!
# What the keep-last walk deletes

On a store whose pointers start strictly decreasing chains of stored versions, the keep-last
branch of `delete_versioned_balances_below_topoheight` ends, leaves the pointers alone, and for
each pointer removes exactly the versions of its chain that lie below the first version, under
the last one, whose type contains an output. The last version and every version down to that
output version stay, and the topoheight the call is given plays no part.
-/

namespace Dapa.Storage

namespace BalanceStore

/-- The versions of `key` along the chain from `start`, newest first. -/
inductive Chain (tree : Layered VersionedKey VersionedBalance) (key : BalanceKey) :
    Option TopoHeight → List (TopoHeight × VersionedBalance) → Prop
  | stop : Chain tree key none []
  | link {topoheight : TopoHeight} {version : VersionedBalance}
      {rest : List (TopoHeight × VersionedBalance)} :
      tree.get (topoheight, key) = some version →
      (∀ previous, version.previousTopoheight = some previous → previous < topoheight) →
      Chain tree key version.previousTopoheight rest →
      Chain tree key (some topoheight) ((topoheight, version) :: rest)

def removeVersions (tree : Layered VersionedKey VersionedBalance) (key : BalanceKey)
    (topoheights : List TopoHeight) : Layered VersionedKey VersionedBalance :=
  topoheights.foldl (fun tree topoheight => tree.remove (topoheight, key)) tree

def belowFirstOutput (versions : List (TopoHeight × VersionedBalance)) : List TopoHeight :=
  ((versions.dropWhile fun entry => !entry.2.balanceType.containsOutput).drop 1).map (·.1)

/-- What the keep-last walk deletes from a pointer's chain: everything below its first output. -/
def keepLastDeleted (versions : List (TopoHeight × VersionedBalance)) : List TopoHeight :=
  belowFirstOutput (versions.drop 1)

theorem get_removeVersions (tree : Layered VersionedKey VersionedBalance) (key other : BalanceKey)
    (topoheights : List TopoHeight) (topoheight : TopoHeight) :
    (removeVersions tree key topoheights).get (topoheight, other) =
      if other = key ∧ topoheight ∈ topoheights then none else tree.get (topoheight, other) := by
  induction topoheights generalizing tree with
  | nil => simp [removeVersions]
  | cons first rest ih =>
    show (removeVersions (tree.remove (first, key)) key rest).get (topoheight, other) = _
    rw [ih]
    by_cases same : other = key <;> by_cases here : topoheight = first <;>
      simp [Layered.remove, same, here]

section Chains

variable {tree : Layered VersionedKey VersionedBalance} {key : BalanceKey}

theorem Chain.congr {tree' : Layered VersionedKey VersionedBalance} {start : Option TopoHeight}
    {versions : List (TopoHeight × VersionedBalance)} (chain : Chain tree key start versions)
    (same : ∀ entry ∈ versions, tree'.get (entry.1, key) = tree.get (entry.1, key)) :
    Chain tree' key start versions := by
  induction chain with
  | stop => exact .stop
  | link stored decreasing _ ih =>
    refine .link ((same _ (List.mem_cons_self _ _)).trans stored) decreasing
      (ih fun entry member => same entry (List.mem_cons_of_mem _ member))

theorem Chain.lt {start : Option TopoHeight} {versions : List (TopoHeight × VersionedBalance)}
    (chain : Chain tree key start versions) {bound : TopoHeight}
    (above : ∀ first, start = some first → first < bound) : ∀ entry ∈ versions, entry.1 < bound := by
  induction chain with
  | stop => exact fun _ member => absurd member (List.not_mem_nil _)
  | @link topoheight version rest stored decreasing restChain ih =>
    have top := topoheight_lt_iff.mp (above topoheight rfl)
    rintro entry (_ | ⟨_, member⟩)
    · exact above topoheight rfl
    · refine ih (fun previous link => topoheight_lt_iff.mpr ?_) entry member
      have := topoheight_lt_iff.mp (decreasing previous link)
      omega

theorem Chain.tail_lt {topoheight : TopoHeight} {version : VersionedBalance}
    {rest : List (TopoHeight × VersionedBalance)}
    (chain : Chain tree key (some topoheight) ((topoheight, version) :: rest)) :
    ∀ entry ∈ rest, entry.1 < topoheight := by
  cases chain with
  | link _ decreasing restChain => exact restChain.lt decreasing

theorem Chain.length_le {start : Option TopoHeight} {versions : List (TopoHeight × VersionedBalance)}
    (chain : Chain tree key start versions) :
    ∀ {bound : Nat}, (∀ first, start = some first → first.toNat < bound) → versions.length ≤ bound := by
  induction chain with
  | stop => exact fun _ => Nat.zero_le _
  | @link topoheight version rest stored decreasing restChain ih =>
    intro bound above
    have shorter := ih fun previous link => topoheight_lt_iff.mp (decreasing previous link)
    have top := above topoheight rfl
    simp only [List.length_cons]
    omega

theorem Chain.length_le_chainFuel {start : Option TopoHeight}
    {versions : List (TopoHeight × VersionedBalance)} (chain : Chain tree key start versions) :
    versions.length ≤ MultisigStore.chainFuel :=
  chain.length_le fun first _ => first.toNat_lt_size

theorem Chain.unique {start : Option TopoHeight} {versions other : List (TopoHeight × VersionedBalance)}
    (chain : Chain tree key start versions) (chain' : Chain tree key start other) :
    versions = other := by
  induction chain generalizing other with
  | stop => cases chain'; rfl
  | link stored _ _ ih =>
    cases chain' with
    | link stored' _ rest' =>
      rw [stored] at stored'
      cases stored'
      rw [ih rest']

theorem Chain.pairwise {start : Option TopoHeight} {versions : List (TopoHeight × VersionedBalance)}
    (chain : Chain tree key start versions) : versions.Pairwise fun newer older => older.1 < newer.1 := by
  induction chain with
  | stop => exact .nil
  | link stored decreasing restChain ih =>
    exact List.pairwise_cons.mpr ⟨Chain.tail_lt (.link stored decreasing restChain), ih⟩

theorem Chain.below_output {start : Option TopoHeight} {versions : List (TopoHeight × VersionedBalance)}
    (chain : Chain tree key start versions) :
    ∀ topoheight ∈ keepLastDeleted versions, ∃ output ∈ versions.drop 1,
      output.2.balanceType.containsOutput = true ∧ topoheight < output.1 := by
  intro topoheight member
  have sorted := (chain.pairwise.sublist (List.drop_sublist 1 versions)).sublist
    (List.dropWhile_sublist fun entry => !entry.2.balanceType.containsOutput)
  have isOutput := List.head?_dropWhile_not (fun entry => !entry.2.balanceType.containsOutput)
    (versions.drop 1)
  have within : ∀ entry ∈ (versions.drop 1).dropWhile (fun entry => !entry.2.balanceType.containsOutput),
      entry ∈ versions.drop 1 := fun _ member => (List.dropWhile_sublist _).subset member
  unfold keepLastDeleted belowFirstOutput at member
  cases dropped : (versions.drop 1).dropWhile fun entry => !entry.2.balanceType.containsOutput with
  | nil =>
    rw [dropped] at member
    simp at member
  | cons first post =>
    rw [dropped] at isOutput sorted within member
    simp only [List.map_cons, List.drop_one, List.tail_cons, List.mem_map] at member
    obtain ⟨entry, inPost, rfl⟩ := member
    exact ⟨first, within first (List.mem_cons_self _ _), by simpa using isOutput,
      (List.pairwise_cons.mp sorted).1 entry inPost⟩

end Chains

/-! ### The walk of one pointer -/

theorem keepLastLoop_delete (key : BalanceKey) (versions : List (TopoHeight × VersionedBalance)) :
    ∀ {start : Option TopoHeight} {store : BalanceStore} {fuel : Nat},
      Chain store.versionedBalances key start versions → versions.length ≤ fuel →
      keepLastLoop key fuel true start store =
        some ({ store with
          versionedBalances := removeVersions store.versionedBalances key (versions.map (·.1)) }, .ok ()) := by
  induction versions with
  | nil =>
    intro start store fuel chain _
    cases chain
    cases fuel <;> rfl
  | cons head rest ih =>
    intro start store fuel chain enough
    cases chain with
    | @link topoheight version _ stored decreasing restChain =>
      obtain ⟨fuel, rfl⟩ : ∃ passes, fuel = passes + 1 :=
        ⟨fuel - 1, by simp only [List.length_cons] at enough; omega⟩
      have below := Chain.tail_lt (.link stored decreasing restChain)
      have kept : Chain (store.versionedBalances.remove (topoheight, key)) key
          version.previousTopoheight rest :=
        restChain.congr fun entry member => by
          simp [Layered.remove, topoheight_ne_of_lt (below entry member)]
      simp only [keepLastLoop, stored, Option.bind_some]
      rw [ih kept (by simpa using enough)]
      rfl

theorem keepLastLoop_keep (key : BalanceKey) (versions : List (TopoHeight × VersionedBalance)) :
    ∀ {start : Option TopoHeight} {store : BalanceStore} {fuel : Nat},
      Chain store.versionedBalances key start versions → versions.length ≤ fuel →
      keepLastLoop key fuel false start store =
        some ({ store with
          versionedBalances := removeVersions store.versionedBalances key (belowFirstOutput versions) },
          .ok ()) := by
  induction versions with
  | nil =>
    intro start store fuel chain _
    cases chain
    cases fuel <;> rfl
  | cons head rest ih =>
    intro start store fuel chain enough
    cases chain with
    | @link topoheight version _ stored decreasing restChain =>
      obtain ⟨fuel, rfl⟩ : ∃ passes, fuel = passes + 1 :=
        ⟨fuel - 1, by simp only [List.length_cons] at enough; omega⟩
      have fits : rest.length ≤ fuel := by simpa using enough
      simp only [keepLastLoop, stored]
      cases output : version.balanceType.containsOutput
      · rw [ih restChain fits]
        simp [belowFirstOutput, output]
      · rw [keepLastLoop_delete key rest restChain fits]
        simp [belowFirstOutput, output]

/-! ### The walk of every pointer -/

theorem keepLastPass_spec (pointers : List (BalanceKey × TopoHeight)) :
    ∀ {store : BalanceStore}, (pointers.map Prod.fst).Nodup →
      (∀ entry ∈ pointers, ∃ versions, Chain store.versionedBalances entry.1 (some entry.2) versions) →
      ∃ after, keepLastPass pointers store = some (after, .ok ()) ∧ after.balances = store.balances ∧
        (∀ key topoheight versions, (key, topoheight) ∈ pointers →
          Chain store.versionedBalances key (some topoheight) versions → ∀ other,
            after.versionedBalances.get (other, key) =
              if other ∈ keepLastDeleted versions then none else store.versionedBalances.get (other, key)) ∧
        ∀ key, key ∉ pointers.map Prod.fst → ∀ other,
          after.versionedBalances.get (other, key) = store.versionedBalances.get (other, key) := by
  induction pointers with
  | nil =>
    intro store _ _
    exact ⟨store, rfl, rfl, fun _ _ _ member => absurd member (List.not_mem_nil _), fun _ _ _ => rfl⟩
  | cons pointer rest ih =>
    obtain ⟨key, topoheight⟩ := pointer
    intro store unique chains
    obtain ⟨fresh, unique⟩ := List.nodup_cons.mp unique
    obtain ⟨versions, chain⟩ : ∃ versions, Chain store.versionedBalances key (some topoheight) versions :=
      chains _ (List.mem_cons_self _ _)
    cases chain with
    | @link _ latest below stored decreasing belowChain =>
      have walked := keepLastLoop_keep key below belowChain belowChain.length_le_chainFuel
      have untouched : ∀ other key', key' ≠ key →
          (removeVersions store.versionedBalances key (belowFirstOutput below)).get (other, key') =
            store.versionedBalances.get (other, key') := fun other key' differs => by
        simp [get_removeVersions, differs]
      have differs : ∀ entry ∈ rest, entry.1 ≠ key := fun entry member same =>
        fresh (by simpa [same] using List.mem_map_of_mem Prod.fst member)
      obtain ⟨after, pass, balances, deleted, others⟩ := @ih { store with
          versionedBalances := removeVersions store.versionedBalances key (belowFirstOutput below) }
          unique fun entry member => by
        obtain ⟨versions, chain⟩ := chains entry (List.mem_cons_of_mem _ member)
        exact ⟨versions, chain.congr fun _ _ => untouched _ _ (differs entry member)⟩
      refine ⟨after, by simp [keepLastPass, stored, walked, pass], balances, ?_, ?_⟩
      · rintro key' topoheight' versions' (_ | ⟨_, member⟩) chain' other
        · cases chain'.unique (.link stored decreasing belowChain)
          rw [others key fresh other]
          simp [get_removeVersions, keepLastDeleted]
        · rw [deleted key' topoheight' versions' member
            (chain'.congr fun _ _ => untouched _ _ (differs _ member)) other,
            untouched _ _ (differs _ member)]
      · intro key' absent other
        simp only [List.map_cons, List.mem_cons, not_or] at absent
        rw [others key' absent.2 other, untouched _ _ absent.1]

theorem chain_of_chainInvariant {store : BalanceStore} (invariant : store.ChainInvariant)
    (topoheight : TopoHeight) (key : BalanceKey)
    (stored : (store.versionedBalances.get (topoheight, key)).isSome) :
    ∃ versions, Chain store.versionedBalances key (some topoheight) versions := by
  obtain ⟨version, found⟩ := Option.isSome_iff_exists.mp stored
  cases previous : version.previousTopoheight with
  | none => exact ⟨_, .link found (by simp [previous]) (previous ▸ Chain.stop)⟩
  | some p =>
    obtain ⟨smaller, storedPrevious⟩ := invariant.2 topoheight key version found p previous
    obtain ⟨rest, chain⟩ := chain_of_chainInvariant invariant p key storedPrevious
    refine ⟨_, .link found (fun q link => ?_) (previous ▸ chain)⟩
    rw [previous] at link
    cases link
    exact smaller
termination_by topoheight.toNat
decreasing_by exact topoheight_lt_iff.mp smaller

/-! ### The keep-last branch -/

/-- With the chain invariant, no snapshot over the pointers and one pointer per key, the
keep-last branch ends with `Ok` and removes from each chain exactly `keepLastDeleted`. -/
theorem keep_last_deletes_below_output
    (deleteVersionedTreeBelowTopoheight :
      BalanceStore → TopoHeight → Bool → BalanceStore × Except BlockchainError Unit)
    (store : BalanceStore) (topoheight : TopoHeight) (invariant : store.ChainInvariant)
    (onDisk : store.balances.pending = none) (unique : (store.balances.disk.map Prod.fst).Nodup) :
    ∃ after, deleteVersionedBalancesBelowTopoheight deleteVersionedTreeBelowTopoheight store
        topoheight true = some (after, .ok ()) ∧
      after.balances = store.balances ∧
      (∀ key pointer, store.balances.get key = some pointer →
        ∃ versions, Chain store.versionedBalances key (some pointer) versions ∧
          (∀ other, after.versionedBalances.get (other, key) =
            if other ∈ keepLastDeleted versions then none else store.versionedBalances.get (other, key)) ∧
          after.versionedBalances.get (pointer, key) = store.versionedBalances.get (pointer, key) ∧
          ∀ deleted ∈ keepLastDeleted versions, ∃ output ∈ versions.drop 1,
            output.2.balanceType.containsOutput = true ∧ deleted < output.1) ∧
      ∀ key, store.balances.get key = none → ∀ other,
        after.versionedBalances.get (other, key) = store.versionedBalances.get (other, key) := by
  have read : ∀ key, store.balances.get key = store.balances.disk.lookup key := by
    simp [Layered.get, onDisk]
  obtain ⟨after, pass, balances, deleted, others⟩ := keepLastPass_spec store.balances.disk unique
    fun entry member => chain_of_chainInvariant invariant _ _
      (invariant.1 _ _ ((read _).trans (lookup_of_mem_nodup unique member)))
  refine ⟨after, pass, balances, fun key pointer found => ?_, fun key absent other => others key ?_ other⟩
  · obtain ⟨versions, chain⟩ := chain_of_chainInvariant invariant _ _ (invariant.1 _ _ found)
    have removed := deleted key pointer versions
      (Layered.mem_of_lookup_eq_some ((read key).symm.trans found)) chain
    have kept : pointer ∉ keepLastDeleted versions := fun member => by
      obtain ⟨output, inTail, -, above⟩ := chain.below_output pointer member
      cases chain with
      | link stored decreasing restChain =>
        have smaller := topoheight_lt_iff.mp (Chain.tail_lt (.link stored decreasing restChain) output inTail)
        have := topoheight_lt_iff.mp above
        omega
    exact ⟨versions, chain, removed, by rw [removed, if_neg kept], chain.below_output⟩
  · rw [read, List.lookup_eq_none_iff] at absent
    intro member
    obtain ⟨entry, inDisk, rfl⟩ := List.mem_map.mp member
    simpa using absent entry inDisk

theorem keep_last_deletes_below_output_at_zero :
    outputBelowLast.ChainInvariant ∧ outputBelowLast.balances.pending = none ∧
      (outputBelowLast.balances.disk.map Prod.fst).Nodup ∧
      ∃ after, deleteVersionedBalancesBelowTopoheight (fun store _ _ => (store, .ok ()))
          outputBelowLast 0 true = some (after, .ok ()) ∧ after.balances = outputBelowLast.balances := by
  have invariant := chainInvariant_of_chainChecked (by decide : outputBelowLast.chainChecked = true)
  have unique : (outputBelowLast.balances.disk.map Prod.fst).Nodup := by decide
  obtain ⟨after, pass, balances, -⟩ :=
    keep_last_deletes_below_output (fun store _ _ => (store, .ok ())) outputBelowLast 0 invariant rfl unique
  exact ⟨invariant, rfl, unique, after, pass, balances⟩

end BalanceStore

end Dapa.Storage
