import Dapa.Storage.MultisigWrites

/-!
# The other multisig readers

`has_multisig` reads the account's pointer and the version it names, `has_multisig_at_topoheight`
the version stored at one topoheight, and `get_last_multisig`, the trait's default method, the
pointer and its version, failing with `NoMultisig` when there is no pointer. On every store the
writers build, the pointer names a stored version: none of the readers fails on a missing key,
and all of them agree with `get_multisig_at_maximum_topoheight_for` at any maximum at or above
the pointer.
-/

namespace Dapa.Storage

namespace MultisigStore

def hasMultisig (store : MultisigStore) (account : PublicKey) : Except BlockchainError Bool :=
  match store.getLastTopoheightForMultisig account with
  | none => .ok false
  | some topoheight => (store.getMultisigAtTopoheightFor account topoheight).map (·.multisig.isSome)

def hasMultisigAtTopoheight (store : MultisigStore) (account : PublicKey) (topoheight : TopoHeight) :
    Except BlockchainError Bool :=
  (store.getMultisigAtTopoheightFor account topoheight).map (·.multisig.isSome)

/-- The errors of `get_last_multisig`: `NoMultisig`, or the version's read error. -/
inductive LastMultisigError where
  | noMultisig
  | read (error : BlockchainError)
  deriving DecidableEq, Repr

/-- `get_last_multisig`: the pointer, `ok_or(NoMultisig)`, then the version stored there. -/
def getLastMultisig (store : MultisigStore) (account : PublicKey) :
    Except LastMultisigError (TopoHeight × VersionedMultiSig) :=
  match store.getLastTopoheightForMultisig account with
  | none => .error .noMultisig
  | some topoheight => ((store.getMultisigAtTopoheightFor account topoheight).mapError .read).map (topoheight, ·)

variable {store : MultisigStore} {account : PublicKey}

theorem Reachable.pointer_stored (reachable : Reachable store) {last : TopoHeight}
    (pointer : store.getLastTopoheightForMultisig account = some last) :
    ∃ version, store.versionedMultisigs.lookup (getVersionedMultisigKey account last) = some version := by
  have chain := reachable.chains account
  rw [pointer] at chain
  cases chain with
  | link stored _ _ => exact ⟨_, stored⟩

/-- On every store the writers build, the multisig readers of an account agree with the maximum
read at or above the pointer, and none fails. -/
theorem multisig_readers_agree (reachable : Reachable store) (account : PublicKey) (maximum : TopoHeight)
    (atOrAbove : ∀ last, store.getLastTopoheightForMultisig account = some last → last ≤ maximum) :
    (store.getLastMultisig account = .error .noMultisig ∧ store.hasMultisig account = .ok false ∧
        store.getMultisigAtMaximumTopoheightFor account maximum = some (.ok none)) ∨
    ∃ last version, store.getLastMultisig account = .ok (last, version) ∧
      store.hasMultisig account = .ok version.multisig.isSome ∧
      store.hasMultisigAtTopoheight account last = .ok version.multisig.isSome ∧
      store.getMultisigAtMaximumTopoheightFor account maximum = some (.ok (some (last, version))) := by
  cases pointer : store.getLastTopoheightForMultisig account with
  | none =>
    left
    simp [getLastMultisig, hasMultisig, getMultisigAtMaximumTopoheightFor, maximumLoop, pointer]
  | some last =>
    obtain ⟨version, stored⟩ := reachable.pointer_stored pointer
    have read := getMultisigAtTopoheightFor_of_lookup stored
    right
    refine ⟨last, version, ?_, ?_, ?_, ?_⟩
    all_goals simp [getLastMultisig, hasMultisig, hasMultisigAtTopoheight, getMultisigAtMaximumTopoheightFor,
      chainFuel_eq_succ, maximumLoop, pointer, read, atOrAbove last pointer, Except.map, Except.mapError]

theorem multisig_readers_agree_written :
    Reachable (empty.setLastMultisigTo zeroAccount 2 ⟨none, some [1]⟩) ∧
    (∀ last, (empty.setLastMultisigTo zeroAccount 2 ⟨none, some [1]⟩).getLastTopoheightForMultisig
      zeroAccount = some last → last ≤ 7) ∧
    (((empty.setLastMultisigTo zeroAccount 2 ⟨none, some [1]⟩).getLastMultisig zeroAccount =
        .error .noMultisig ∧
      (empty.setLastMultisigTo zeroAccount 2 ⟨none, some [1]⟩).hasMultisig zeroAccount = .ok false ∧
      (empty.setLastMultisigTo zeroAccount 2 ⟨none, some [1]⟩).getMultisigAtMaximumTopoheightFor
        zeroAccount 7 = some (.ok none)) ∨
    ∃ last version, (empty.setLastMultisigTo zeroAccount 2 ⟨none, some [1]⟩).getLastMultisig zeroAccount =
        .ok (last, version) ∧
      (empty.setLastMultisigTo zeroAccount 2 ⟨none, some [1]⟩).hasMultisig zeroAccount =
        .ok version.multisig.isSome ∧
      (empty.setLastMultisigTo zeroAccount 2 ⟨none, some [1]⟩).hasMultisigAtTopoheight zeroAccount last =
        .ok version.multisig.isSome ∧
      (empty.setLastMultisigTo zeroAccount 2 ⟨none, some [1]⟩).getMultisigAtMaximumTopoheightFor
        zeroAccount 7 = some (.ok (some (last, version)))) := by
  have written : Reachable (empty.setLastMultisigTo zeroAccount 2 ⟨none, some [1]⟩) := .setLast .empty rfl nofun
  have below : ∀ last, (empty.setLastMultisigTo zeroAccount 2 ⟨none, some [1]⟩).getLastTopoheightForMultisig
      zeroAccount = some last → last ≤ 7 := by
    intro last pointer
    simp only [getLastTopoheightForMultisig_setLastMultisigTo, if_pos, Option.some.injEq] at pointer
    rw [← pointer]
    decide
  exact ⟨written, below, multisig_readers_agree written zeroAccount 7 below⟩

end MultisigStore

end Dapa.Storage
