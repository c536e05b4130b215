import Dapa.Storage.Balance

/-!
# Writing multisig versions

`set_last_multisig_to` stores a version under `get_versioned_multisig_key(account, topoheight)`
and moves the account's pointer to `topoheight`; `delete_last_topoheight_for_multisig` removes
the pointer. A key names one account and one topoheight (`to_be_bytes` is injective), so a write
changes one version of one chain. When each new version links to the account's last topoheight
and is written above it, every chain of the store keeps strictly decreasing; the version written
is what each read of its account at or above its topoheight returns, and no read below it or of
another account changes.
-/

namespace Dapa.Storage

/-! ### A key names one account and one topoheight -/

theorem eq_of_digits : ∀ (count value other : Nat), value < 256 ^ count → other < 256 ^ count →
    (∀ i < count, value / 256 ^ i % 256 = other / 256 ^ i % 256) → value = other
  | 0, value, other, small, small', _ => by
    simp only [pow_zero] at small small'
    omega
  | count + 1, value, other, small, small', digits => by
    have high : value / 256 = other / 256 :=
      eq_of_digits count _ _ (Nat.div_lt_of_lt_mul (by rwa [← pow_succ']))
        (Nat.div_lt_of_lt_mul (by rwa [← pow_succ']))
        fun i below => by simpa [Nat.div_div_eq_div_mul, ← pow_succ'] using digits (i + 1) (by omega)
    have low := digits 0 (by omega)
    simp only [pow_zero, Nat.div_one] at low
    omega

theorem shiftRight_toUInt8_toNat (value : UInt64) (index : Nat) (small : index < 8) :
    (value >>> UInt64.ofNat (8 * index)).toUInt8.toNat = value.toNat / 256 ^ index % 256 := by
  have amount : (UInt64.ofNat (8 * index)).toBitVec.toNat % 64 = 8 * index := by
    simp only [UInt64.ofNat, BitVec.toNat_ofNat]
    omega
  rw [show (256 : Nat) = 2 ^ 8 from rfl, ← pow_mul]
  simp only [HShiftRight.hShiftRight, ShiftRight.shiftRight, UInt64.shiftRight, UInt64.toUInt8,
    UInt64.toNat]
  simp [BitVec.toNat_ushiftRight, Nat.shiftRight_eq_div_pow, UInt64.mod, UInt8.toNat, Nat.toUInt8,
    UInt8.ofNat, amount]

theorem toBeBytes_map_toNat (value : UInt64) :
    (toBeBytes value).map UInt8.toNat = (List.range 8).reverse.map fun i => value.toNat / 256 ^ i % 256 := by
  rw [show toBeBytes value = (List.range 8).reverse.map fun i => (value >>> UInt64.ofNat (8 * i)).toUInt8
    from rfl, List.map_map]
  exact List.map_congr_left fun i member => shiftRight_toUInt8_toNat value i (by simpa using member)

theorem toBeBytes_injective {value other : UInt64} (same : toBeBytes value = toBeBytes other) :
    value = other := by
  have digits := congrArg (List.map UInt8.toNat) same
  rw [toBeBytes_map_toNat, toBeBytes_map_toNat, List.map_inj_left] at digits
  have size : UInt64.size = 256 ^ 8 := by decide
  exact UInt64.toNat.inj (eq_of_digits 8 _ _ (size ▸ value.toNat_lt_size) (size ▸ other.toNat_lt_size)
    fun i below => digits i (by simpa using below))

@[simp] theorem PublicKey.bytes_inj {account other : PublicKey} :
    account.bytes = other.bytes ↔ account = other := by
  refine ⟨fun same => ?_, congrArg _⟩
  obtain ⟨bytes, _⟩ := account
  obtain ⟨_, _⟩ := other
  subst same
  rfl

@[simp] theorem getVersionedMultisigKey_inj {account other : PublicKey} {topoheight written : TopoHeight} :
    getVersionedMultisigKey account topoheight = getVersionedMultisigKey other written ↔
      account = other ∧ topoheight = written := by
  refine ⟨fun same => ?_, fun ⟨accounts, topoheights⟩ => accounts ▸ topoheights ▸ rfl⟩
  obtain ⟨accounts, bytes⟩ := List.append_inj same (account.size.trans other.size.symm)
  exact ⟨PublicKey.bytes_inj.mp accounts, toBeBytes_injective bytes⟩

theorem lookup_lawfulBEq {K V : Type} [DecidableEq K] [BEq K] [LawfulBEq K] (entries : List (K × V))
    (key : K) : entries.lookup key = @List.lookup K V instBEqOfDecidableEq key entries := by
  induction entries with
  | nil => rfl
  | cons entry entries ih =>
    obtain ⟨k, v⟩ := entry
    by_cases same : key = k
    · simp [List.lookup_cons, same]
    · simp [List.lookup_cons, beq_false_of_ne same, @beq_false_of_ne K instBEqOfDecidableEq _ key k same, ih]

namespace MultisigStore

/-! ### The writers -/

def empty : MultisigStore := ⟨[], []⟩

def setMultisigAtTopoheightFor (store : MultisigStore) (account : PublicKey) (topoheight : TopoHeight)
    (multisig : VersionedMultiSig) : MultisigStore :=
  { store with
    versionedMultisigs := Dapa.Storage.setMultisigAtTopoheightFor store.versionedMultisigs account topoheight multisig }

def setLastTopoheightForMultisig (store : MultisigStore) (account : PublicKey) (topoheight : TopoHeight) :
    MultisigStore :=
  { store with multisig := insertEntry store.multisig account.bytes topoheight }

def deleteLastTopoheightForMultisig (store : MultisigStore) (account : PublicKey) : MultisigStore :=
  { store with multisig := removeEntry store.multisig account.bytes }

def setLastMultisigTo (store : MultisigStore) (account : PublicKey) (topoheight : TopoHeight)
    (multisig : VersionedMultiSig) : MultisigStore :=
  (store.setMultisigAtTopoheightFor account topoheight multisig).setLastTopoheightForMultisig account topoheight

variable {store : MultisigStore} {account : PublicKey} {topoheight maximum : TopoHeight}
  {multisig : VersionedMultiSig}

@[simp] theorem getLastTopoheightForMultisig_setLastMultisigTo (other : PublicKey) :
    (store.setLastMultisigTo account topoheight multisig).getLastTopoheightForMultisig other =
      if other = account then some topoheight else store.getLastTopoheightForMultisig other := by
  simp only [setLastMultisigTo, setLastTopoheightForMultisig, setMultisigAtTopoheightFor,
    getLastTopoheightForMultisig, lookup_lawfulBEq, lookup_insertEntry, PublicKey.bytes_inj]

@[simp] theorem lookup_setLastMultisigTo (other : PublicKey) (written : TopoHeight) :
    (store.setLastMultisigTo account topoheight multisig).versionedMultisigs.lookup
        (getVersionedMultisigKey other written) =
      if other = account ∧ written = topoheight then some multisig
      else store.versionedMultisigs.lookup (getVersionedMultisigKey other written) := by
  simp only [setLastMultisigTo, setLastTopoheightForMultisig, setMultisigAtTopoheightFor,
    Dapa.Storage.setMultisigAtTopoheightFor, lookup_lawfulBEq, lookup_insertEntry, getVersionedMultisigKey_inj]

@[simp] theorem getLastTopoheightForMultisig_deleteLastTopoheightForMultisig (other : PublicKey) :
    (store.deleteLastTopoheightForMultisig account).getLastTopoheightForMultisig other =
      if other = account then none else store.getLastTopoheightForMultisig other := by
  simp only [deleteLastTopoheightForMultisig, getLastTopoheightForMultisig, lookup_lawfulBEq,
    lookup_removeEntry, PublicKey.bytes_inj]

/-! ### What a write leaves in place -/

theorem DecreasingChain.of_frame {after : MultisigStore} {start : Option TopoHeight}
    (chain : DecreasingChain store account start)
    (frame : ∀ written, OnChain store account start written →
      after.versionedMultisigs.lookup (getVersionedMultisigKey account written) =
        store.versionedMultisigs.lookup (getVersionedMultisigKey account written)) :
    DecreasingChain after account start := by
  induction chain with
  | stop => exact .stop
  | link stored decreasing _ ih =>
    exact .link ((frame _ (.head _)).trans stored) decreasing
      (ih fun written member => frame written (.next stored member))

theorem maximumLoop_frame {after : MultisigStore} (fuel : Nat) :
    ∀ {start : Option TopoHeight}, (∀ written, OnChain store account start written →
      after.versionedMultisigs.lookup (getVersionedMultisigKey account written) =
        store.versionedMultisigs.lookup (getVersionedMultisigKey account written)) →
    after.maximumLoop account maximum fuel start = store.maximumLoop account maximum fuel start := by
  induction fuel with
  | zero => rintro (_ | _) _ <;> rfl
  | succ fuel ih =>
    rintro (_ | topoheight) frame
    · rfl
    · have same := frame topoheight (.head topoheight)
      cases stored : store.versionedMultisigs.lookup (getVersionedMultisigKey account topoheight) with
      | none => simp [maximumLoop, getMultisigAtTopoheightFor, same, stored]
      | some version =>
        simp only [maximumLoop, getMultisigAtTopoheightFor_of_lookup stored,
          getMultisigAtTopoheightFor_of_lookup (same.trans stored),
          ih fun written member => frame written (.next stored member)]

theorem maximumLoop_succ {fuel : Nat} :
    ∀ {start result}, store.maximumLoop account maximum fuel start = some result →
      store.maximumLoop account maximum (fuel + 1) start = some result := by
  induction fuel with
  | zero => rintro (_ | _) result done <;> first | exact done | cases done
  | succ fuel ih =>
    rintro (_ | topoheight) result done
    · exact done
    · simp only [maximumLoop] at done ⊢
      split_ifs at done ⊢
      · exact done
      · cases read : store.getMultisigAtTopoheightFor account topoheight <;> simp only [read] at done ⊢
        · exact done
        · exact ih done

theorem DecreasingChain.onChain_lt {start : Option TopoHeight} (chain : DecreasingChain store account start)
    (above : ∀ first, start = some first → first < topoheight) {written : TopoHeight}
    (member : OnChain store account start written) : written < topoheight := by
  cases start with
  | none => exact absurd member not_onChain_none
  | some first =>
    have atMost := topoheight_le_iff.mp (chain.onChain_le rfl member)
    have smaller := topoheight_lt_iff.mp (above first rfl)
    exact topoheight_lt_iff.mpr (by omega)

theorem chainFuel_eq_succ : chainFuel = 2 ^ 64 - 1 + 1 := rfl

/-! ### One write -/

theorem setLastMultisigTo_chains
    (chains : ∀ other, DecreasingChain store other (store.getLastTopoheightForMultisig other))
    (linked : multisig.previousTopoheight = store.getLastTopoheightForMultisig account)
    (above : ∀ last, store.getLastTopoheightForMultisig account = some last → last < topoheight)
    (other : PublicKey) :
    DecreasingChain (store.setLastMultisigTo account topoheight multisig) other
      ((store.setLastMultisigTo account topoheight multisig).getLastTopoheightForMultisig other) := by
  rw [getLastTopoheightForMultisig_setLastMultisigTo]
  by_cases same : other = account
  · subst same
    rw [if_pos rfl]
    refine .link (show _ = some multisig by simp) (fun previous link => above previous (linked ▸ link)) ?_
    rw [linked]
    exact (chains other).of_frame fun written member => by
      simp [topoheight_ne_of_lt ((chains other).onChain_lt above member)]
  · rw [if_neg same]
    exact (chains other).of_frame fun written _ => by simp [same]

theorem setLastMultisigTo_read_at_or_above (within : topoheight ≤ maximum) :
    (store.setLastMultisigTo account topoheight multisig).getMultisigAtMaximumTopoheightFor account maximum =
      some (.ok (some (topoheight, multisig))) := by
  have read : (store.setLastMultisigTo account topoheight multisig).getMultisigAtTopoheightFor account
      topoheight = .ok multisig := getMultisigAtTopoheightFor_of_lookup (by simp)
  simp [getMultisigAtMaximumTopoheightFor, chainFuel_eq_succ, maximumLoop, within, read, Except.map]

theorem setLastMultisigTo_read_other {other : PublicKey} (differs : other ≠ account) :
    (store.setLastMultisigTo account topoheight multisig).getMultisigAtMaximumTopoheightFor other maximum =
      store.getMultisigAtMaximumTopoheightFor other maximum := by
  simp only [getMultisigAtMaximumTopoheightFor, getLastTopoheightForMultisig_setLastMultisigTo, if_neg differs]
  exact maximumLoop_frame _ fun written _ => by simp [differs]

theorem setLastMultisigTo_read_below
    (chain : DecreasingChain store account (store.getLastTopoheightForMultisig account))
    (linked : multisig.previousTopoheight = store.getLastTopoheightForMultisig account)
    (above : ∀ last, store.getLastTopoheightForMultisig account = some last → last < topoheight)
    (below : maximum < topoheight) :
    (store.setLastMultisigTo account topoheight multisig).getMultisigAtMaximumTopoheightFor account maximum =
      store.getMultisigAtMaximumTopoheightFor account maximum := by
  have bounded : ∀ last, store.getLastTopoheightForMultisig account = some last →
      last.toNat < 2 ^ 64 - 1 := fun last pointer => by
    have smaller := topoheight_lt_iff.mp (above last pointer)
    have := topoheight.toNat_lt_size
    simp only [UInt64.size] at this
    omega
  obtain ⟨result, found, -⟩ := @maximumLoop_spec _ _ maximum _ chain _ bounded
  have frame : ∀ written, OnChain store account (store.getLastTopoheightForMultisig account) written →
      (store.setLastMultisigTo account topoheight multisig).versionedMultisigs.lookup
          (getVersionedMultisigKey account written) =
        store.versionedMultisigs.lookup (getVersionedMultisigKey account written) := by
    intro written member
    simp [topoheight_ne_of_lt (chain.onChain_lt above member)]
  have read : (store.setLastMultisigTo account topoheight multisig).getMultisigAtTopoheightFor account
      topoheight = .ok multisig := getMultisigAtTopoheightFor_of_lookup (by simp)
  have notWithin : ¬ topoheight ≤ maximum := fun within =>
    absurd (topoheight_le_iff.mp within) (by have := topoheight_lt_iff.mp below; omega)
  simp only [getMultisigAtMaximumTopoheightFor, chainFuel_eq_succ, getLastTopoheightForMultisig_setLastMultisigTo,
    if_pos, maximumLoop, notWithin, if_false, read, linked, maximumLoop_frame _ frame, found,
    maximumLoop_succ found]

theorem deleteLastTopoheightForMultisig_chains
    (chains : ∀ other, DecreasingChain store other (store.getLastTopoheightForMultisig other))
    (other : PublicKey) :
    DecreasingChain (store.deleteLastTopoheightForMultisig account) other
      ((store.deleteLastTopoheightForMultisig account).getLastTopoheightForMultisig other) := by
  rw [getLastTopoheightForMultisig_deleteLastTopoheightForMultisig]
  split_ifs
  · exact .stop
  · exact (chains other).of_frame fun _ _ => rfl

/-! ### Every store the writers build -/

/-- The stores `set_last_multisig_to` builds from a fresh storage, each version linked to the
account's last topoheight and written above it. -/
inductive Reachable : MultisigStore → Prop
  | empty : Reachable empty
  | setLast {store : MultisigStore} {account : PublicKey} {topoheight : TopoHeight}
      {multisig : VersionedMultiSig} :
      Reachable store →
      multisig.previousTopoheight = store.getLastTopoheightForMultisig account →
      (∀ last, store.getLastTopoheightForMultisig account = some last → last < topoheight) →
      Reachable (store.setLastMultisigTo account topoheight multisig)
  | deleteLast {store : MultisigStore} {account : PublicKey} :
      Reachable store → Reachable (store.deleteLastTopoheightForMultisig account)

theorem Reachable.chains (reachable : Reachable store) :
    ∀ account, DecreasingChain store account (store.getLastTopoheightForMultisig account) := by
  induction reachable with
  | empty => exact fun _ => .stop
  | setLast _ linked above ih => exact setLastMultisigTo_chains ih linked above
  | deleteLast _ ih => exact deleteLastTopoheightForMultisig_chains ih

/-- On every store the writers build, the maximum read finds the greatest version at or below the
maximum, and the next write changes only its own account's reads at or above its topoheight. -/
theorem multisig_writes_read_back (reachable : Reachable store) (account : PublicKey)
    (topoheight maximum : TopoHeight) (multisig : VersionedMultiSig) :
    (∃ result, store.getMultisigAtMaximumTopoheightFor account maximum = some (.ok result) ∧
      IsMaximumVersion store account maximum (store.getLastTopoheightForMultisig account) result) ∧
    (topoheight ≤ maximum →
      (store.setLastMultisigTo account topoheight multisig).getMultisigAtMaximumTopoheightFor account maximum =
        some (.ok (some (topoheight, multisig)))) ∧
    (∀ other, other ≠ account →
      (store.setLastMultisigTo account topoheight multisig).getMultisigAtMaximumTopoheightFor other maximum =
        store.getMultisigAtMaximumTopoheightFor other maximum) ∧
    (multisig.previousTopoheight = store.getLastTopoheightForMultisig account →
      (∀ last, store.getLastTopoheightForMultisig account = some last → last < topoheight) →
      maximum < topoheight →
      (store.setLastMultisigTo account topoheight multisig).getMultisigAtMaximumTopoheightFor account maximum =
        store.getMultisigAtMaximumTopoheightFor account maximum) :=
  ⟨maximumLoop_spec (reachable.chains account) chainFuel fun first _ => first.toNat_lt_size,
    setLastMultisigTo_read_at_or_above, fun _ differs => setLastMultisigTo_read_other differs,
    setLastMultisigTo_read_below (reachable.chains account)⟩

theorem multisig_writes_read_back_third_write :
    Reachable ((empty.setLastMultisigTo zeroAccount 2 ⟨none, some [1]⟩).setLastMultisigTo zeroAccount 5
      ⟨some 2, some [2]⟩) ∧
    (((empty.setLastMultisigTo zeroAccount 2 ⟨none, some [1]⟩).setLastMultisigTo zeroAccount 5
      ⟨some 2, some [2]⟩).setLastMultisigTo zeroAccount 9 ⟨some 5, none⟩).getMultisigAtMaximumTopoheightFor
        zeroAccount 4 =
      ((empty.setLastMultisigTo zeroAccount 2 ⟨none, some [1]⟩).setLastMultisigTo zeroAccount 5
        ⟨some 2, some [2]⟩).getMultisigAtMaximumTopoheightFor zeroAccount 4 := by
  have first : Reachable (empty.setLastMultisigTo zeroAccount 2 ⟨none, some [1]⟩) :=
    .setLast .empty rfl nofun
  have second : Reachable ((empty.setLastMultisigTo zeroAccount 2 ⟨none, some [1]⟩).setLastMultisigTo
      zeroAccount 5 ⟨some 2, some [2]⟩) :=
    .setLast first (by simp) (by simp)
  exact ⟨second, (multisig_writes_read_back second zeroAccount 9 4 ⟨some 5, none⟩).2.2.2 (by simp)
    (by simp) (by decide)⟩

end MultisigStore

end Dapa.Storage
