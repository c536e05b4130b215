import Dapa.Storage.Multisig
import Mathlib.Algebra.Group.Nat.Basic

/-!
# Reading multisig versions back

An account's multisig versions form a chain: the `multisig` tree points at the last version,
and each version names the topoheight of the one before it. `get_multisig_at_maximum_topoheight_for`
walks the chain from the pointer and returns the first version at or below the maximum;
`get_updated_multisigs` classifies that version for each key. When the chain's topoheights
strictly decrease, the walk ends, and the first version at or below the maximum is the
greatest one. `VersionedMultiSig` (whose setup, kept as its serialized bytes, is `None` once
deleted), `BlockchainError` and `State` are modelled from the spec: their source is not in this
repository.
-/

namespace Dapa.Storage

abbrev MultiSigPayload := List UInt8

structure VersionedMultiSig where
  previousTopoheight : Option TopoHeight
  multisig : Option MultiSigPayload
  deriving DecidableEq, Repr

inductive BlockchainError where
  | notFoundOnDisk
  deriving DecidableEq, Repr

/-- The pointer tree, keyed by the account's bytes, and the versions tree of `SledStorage`. -/
structure MultisigStore where
  multisig : List (List UInt8 × TopoHeight)
  versionedMultisigs : List (List UInt8 × VersionedMultiSig)
  deriving DecidableEq, Repr

namespace MultisigStore

def getLastTopoheightForMultisig (store : MultisigStore) (account : PublicKey) : Option TopoHeight :=
  store.multisig.lookup account.bytes

def getMultisigAtTopoheightFor (store : MultisigStore) (account : PublicKey) (topoheight : TopoHeight) :
    Except BlockchainError VersionedMultiSig :=
  match store.versionedMultisigs.lookup (getVersionedMultisigKey account topoheight) with
  | some version => .ok version
  | none => .error .notFoundOnDisk

/-- A strictly decreasing chain of `u64` topoheights has fewer than `2^64` links. -/
def chainFuel : Nat := 2 ^ 64

/-- The `while let Some(topoheight) = previous_topoheight` loop, with at most `fuel` passes. -/
def maximumLoop (store : MultisigStore) (account : PublicKey) (maximum : TopoHeight) :
    Nat → Option TopoHeight → Option (Except BlockchainError (Option (TopoHeight × VersionedMultiSig)))
  | _, none => some (.ok none)
  | 0, some _ => none
  | fuel + 1, some topoheight =>
    if topoheight ≤ maximum then
      some ((store.getMultisigAtTopoheightFor account topoheight).map fun version => some (topoheight, version))
    else
      match store.getMultisigAtTopoheightFor account topoheight with
      | .error error => some (.error error)
      | .ok version => maximumLoop store account maximum fuel version.previousTopoheight

def getMultisigAtMaximumTopoheightFor (store : MultisigStore) (account : PublicKey)
    (maximum : TopoHeight) : Option (Except BlockchainError (Option (TopoHeight × VersionedMultiSig))) :=
  store.maximumLoop account maximum chainFuel (store.getLastTopoheightForMultisig account)

inductive State (T : Type) where
  | some (value : T)
  | deleted
  | clean
  | none
  deriving DecidableEq, Repr

def updatedState (minimum : TopoHeight) : Option (TopoHeight × VersionedMultiSig) → State MultiSigPayload
  | some (topoheight, version) =>
    if topoheight ≥ minimum then
      match version.multisig with
      | some multisig => .some multisig
      | none => .deleted
    else .clean
  | none => .none

def getUpdatedMultisigs (store : MultisigStore) (minimum maximum : TopoHeight) :
    List PublicKey → Option (Except BlockchainError (List (State MultiSigPayload)))
  | [] => some (.ok [])
  | key :: keys =>
    match store.getMultisigAtMaximumTopoheightFor key maximum with
    | none => none
    | some (.error error) => some (.error error)
    | some (.ok found) =>
      (store.getUpdatedMultisigs minimum maximum keys).map
        (·.map (updatedState minimum found :: ·))

/-! ### The chain of an account -/

/-- The chain from `start` visits stored versions at strictly decreasing topoheights. -/
inductive DecreasingChain (store : MultisigStore) (account : PublicKey) : Option TopoHeight → Prop
  | stop : DecreasingChain store account none
  | link {topoheight : TopoHeight} {version : VersionedMultiSig} :
      store.versionedMultisigs.lookup (getVersionedMultisigKey account topoheight) = some version →
      (∀ previous, version.previousTopoheight = some previous → previous < topoheight) →
      DecreasingChain store account version.previousTopoheight →
      DecreasingChain store account (some topoheight)

inductive OnChain (store : MultisigStore) (account : PublicKey) : Option TopoHeight → TopoHeight → Prop
  | head (topoheight : TopoHeight) : OnChain store account (some topoheight) topoheight
  | next {topoheight other : TopoHeight} {version : VersionedMultiSig} :
      store.versionedMultisigs.lookup (getVersionedMultisigKey account topoheight) = some version →
      OnChain store account version.previousTopoheight other →
      OnChain store account (some topoheight) other

/-- The result of a maximum search from `start`: the greatest topoheight at most `maximum` on the
chain, with its version, or `none` when there is none. -/
def IsMaximumVersion (store : MultisigStore) (account : PublicKey) (maximum : TopoHeight)
    (start : Option TopoHeight) : Option (TopoHeight × VersionedMultiSig) → Prop
  | some (found, version) =>
    OnChain store account start found ∧ found ≤ maximum ∧
      (∀ other, OnChain store account start other → other ≤ maximum → other ≤ found) ∧
      store.versionedMultisigs.lookup (getVersionedMultisigKey account found) = some version
  | none => ∀ other, OnChain store account start other → maximum < other

variable {store : MultisigStore} {account : PublicKey}

theorem getMultisigAtTopoheightFor_of_lookup {topoheight : TopoHeight} {version : VersionedMultiSig}
    (stored : store.versionedMultisigs.lookup (getVersionedMultisigKey account topoheight) = some version) :
    store.getMultisigAtTopoheightFor account topoheight = .ok version := by
  simp [getMultisigAtTopoheightFor, stored]

theorem not_onChain_none {other : TopoHeight} : ¬ OnChain store account none other := nofun

theorem OnChain.of_link {topoheight other : TopoHeight} {version : VersionedMultiSig}
    (stored : store.versionedMultisigs.lookup (getVersionedMultisigKey account topoheight) = some version)
    (member : OnChain store account (some topoheight) other) :
    other = topoheight ∨ OnChain store account version.previousTopoheight other := by
  cases member with
  | head => exact .inl rfl
  | next stored' later =>
    rw [stored] at stored'
    cases stored'
    exact .inr later

theorem DecreasingChain.onChain_le {start : Option TopoHeight}
    (chain : DecreasingChain store account start) :
    ∀ {first other}, start = some first → OnChain store account start other → other ≤ first := by
  induction chain with
  | stop => intro first other same; cases same
  | @link topoheight version stored decreasing rest ih =>
    intro first other same member
    cases same
    rcases member.of_link stored with rfl | later
    · exact topoheight_le_iff.mpr le_rfl
    · cases previous : version.previousTopoheight with
      | none => exact absurd (previous ▸ later) not_onChain_none
      | some p =>
        have below := topoheight_le_iff.mp (ih previous later)
        have smaller := topoheight_lt_iff.mp (decreasing p previous)
        exact topoheight_le_iff.mpr (by omega)

theorem maximumLoop_spec {maximum : TopoHeight} {start : Option TopoHeight}
    (chain : DecreasingChain store account start) :
    ∀ fuel, (∀ first, start = some first → first.toNat < fuel) →
      ∃ result, store.maximumLoop account maximum fuel start = some (.ok result) ∧
        IsMaximumVersion store account maximum start result := by
  induction chain with
  | stop =>
    intro fuel _
    exact ⟨none, by cases fuel <;> rfl, fun other member => absurd member not_onChain_none⟩
  | @link topoheight version stored decreasing rest ih =>
    intro fuel enough
    have first := enough topoheight rfl
    obtain ⟨fuel, rfl⟩ : ∃ passes, fuel = passes + 1 := ⟨fuel - 1, by omega⟩
    have read := getMultisigAtTopoheightFor_of_lookup stored
    by_cases within : topoheight ≤ maximum
    · refine ⟨some (topoheight, version), by simp [maximumLoop, within, read, Except.map], .head topoheight,
        within, fun other member _ => (DecreasingChain.link stored decreasing rest).onChain_le rfl member,
        stored⟩
    · have above : maximum < topoheight := by
        rw [topoheight_le_iff] at within
        exact topoheight_lt_iff.mpr (by omega)
      have bounded : ∀ previous, version.previousTopoheight = some previous → previous.toNat < fuel :=
        fun previous link => by
          have smaller := topoheight_lt_iff.mp (decreasing previous link)
          omega
      obtain ⟨result, loop, found⟩ := ih fuel bounded
      refine ⟨result, by simp [maximumLoop, within, read, loop], ?_⟩
      cases result with
      | none =>
        intro other member
        rcases member.of_link stored with rfl | later
        · exact above
        · exact found other later
      | some pair =>
        obtain ⟨onRest, below, greatest, storedFound⟩ := found
        refine ⟨.next stored onRest, below, fun other member bound => ?_, storedFound⟩
        rcases member.of_link stored with rfl | later
        · exact absurd bound within
        · exact greatest other later bound

/-- When every chain strictly decreases, the maximum read ends with the greatest version at or below
the maximum, and `get_updated_multisigs` reports it key by key. -/
theorem multisig_versions_read_back
    (chains : ∀ account, DecreasingChain store account (store.getLastTopoheightForMultisig account))
    (minimum maximum : TopoHeight) (keys : List PublicKey) :
    (∀ account, ∃ result, store.getMultisigAtMaximumTopoheightFor account maximum = some (.ok result) ∧
      IsMaximumVersion store account maximum (store.getLastTopoheightForMultisig account) result) ∧
    ∃ states, store.getUpdatedMultisigs minimum maximum keys = some (.ok states) ∧
      List.Forall₂ (fun key state => ∃ result,
        IsMaximumVersion store key maximum (store.getLastTopoheightForMultisig key) result ∧
        (result = none → state = .none) ∧
        ∀ found version, result = some (found, version) →
          (found < minimum → state = .clean) ∧
          (minimum ≤ found → state = match version.multisig with
            | some multisig => .some multisig
            | none => .deleted)) keys states := by
  have search : ∀ account, ∃ result,
      store.getMultisigAtMaximumTopoheightFor account maximum = some (.ok result) ∧
      IsMaximumVersion store account maximum (store.getLastTopoheightForMultisig account) result :=
    fun account => maximumLoop_spec (chains account) chainFuel fun first _ => first.toNat_lt_size
  refine ⟨search, ?_⟩
  induction keys with
  | nil => exact ⟨[], rfl, .nil⟩
  | cons key keys ih =>
    obtain ⟨result, found, spec⟩ := search key
    obtain ⟨states, rest, reported⟩ := ih
    refine ⟨updatedState minimum result :: states, by simp [getUpdatedMultisigs, found, rest, Except.map],
      .cons ⟨result, spec, by rintro rfl; rfl, fun found version same => ⟨fun below => ?_, fun atLeast => ?_⟩⟩
        reported⟩
    · have notAtLeast : ¬ found ≥ minimum := by
        rw [topoheight_lt_iff] at below
        exact fun atLeast => absurd (topoheight_le_iff.mp atLeast) (by omega)
      simp [same, updatedState, notAtLeast]
    · simp [same, updatedState, show found ≥ minimum from atLeast]

theorem multisig_versions_read_back_below_pointer :
    let twoVersions : MultisigStore := ⟨[(zeroAccount.bytes, 5)],
      [(getVersionedMultisigKey zeroAccount 5, ⟨some 2, some [1]⟩),
        (getVersionedMultisigKey zeroAccount 2, ⟨none, some [2]⟩)]⟩
    (∀ account, DecreasingChain twoVersions account (twoVersions.getLastTopoheightForMultisig account)) ∧
      ∃ result, twoVersions.getMultisigAtMaximumTopoheightFor zeroAccount 4 = some (.ok result) ∧
        IsMaximumVersion twoVersions zeroAccount 4 (twoVersions.getLastTopoheightForMultisig zeroAccount)
          result := by
  intro twoVersions
  have chains : ∀ account,
      DecreasingChain twoVersions account (twoVersions.getLastTopoheightForMultisig account) := by
    intro account
    by_cases same : account.bytes = zeroAccount.bytes
    · obtain rfl : account = zeroAccount := by
        obtain ⟨bytes, size⟩ := account
        subst same
        rfl
      exact @DecreasingChain.link _ _ 5 ⟨some 2, some [1]⟩ (by decide) (by rintro _ ⟨⟩; decide)
        (@DecreasingChain.link _ _ 2 ⟨none, some [2]⟩ (by decide) nofun .stop)
    · have differs : (account.bytes == zeroAccount.bytes) = false := by simpa using same
      have missing : twoVersions.getLastTopoheightForMultisig account = none := by
        simp [twoVersions, getLastTopoheightForMultisig, List.lookup_cons, differs]
      exact missing ▸ .stop
  exact ⟨chains, (multisig_versions_read_back chains 0 4 []).1 zeroAccount⟩

end MultisigStore

end Dapa.Storage
