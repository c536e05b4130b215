import Mathlib.Algebra.Group.Nat.Basic

/-!
# Transaction fees

`calculate_tx_fee` charges `FEE_PER_KB` for every started kilobyte of the transaction,
`FEE_PER_TRANSFER` for every output, `FEE_PER_ACCOUNT_CREATION` for every new address, and
`FEE_PER_TRANSFER` again for every multisig signature: `FEE_PER_MULTISIG_SIGNATURE`, which
`config.rs` defines for that overhead, is not read. The sum is `u64` arithmetic, which wraps
modulo `2^64` in a release build; `usize` is 64 bits wide.
-/

namespace Dapa.Common

def bytesPerKb : UInt64 := 1024

/-- `FEE_PER_KB`: the literal `00100` is decimal. -/
def feePerKb : UInt64 := 100

def feePerAccountCreation : UInt64 := 100000

def feePerTransfer : UInt64 := 1000

def calculateTxFee (txSize outputCount newAddresses multisig : UInt64) : UInt64 :=
  let sizeInKb := txSize / bytesPerKb
  let sizeInKb := if txSize % bytesPerKb ≠ 0 then sizeInKb + 1 else sizeInKb
  sizeInKb * feePerKb + outputCount * feePerTransfer + newAddresses * feePerAccountCreation +
    multisig * feePerTransfer

theorem sizeInKb_eq (txSize : UInt64) :
    (if txSize % bytesPerKb ≠ 0 then txSize / bytesPerKb + 1 else txSize / bytesPerKb).toNat =
      (txSize.toNat + 1023) / 1024 := by
  have small := txSize.toNat_lt_size
  have remainder : (txSize % bytesPerKb).toNat = txSize.toNat % 1024 := UInt64.toNat_mod _ _
  have quotient : (txSize / bytesPerKb).toNat = txSize.toNat / 1024 := UInt64.toNat_div _ _
  split
  · next started =>
    have : txSize.toNat % 1024 ≠ 0 := fun zero => started (UInt64.toNat.inj (remainder.trans zero))
    show ((txSize / bytesPerKb).toNat + 1) % 2 ^ 64 = _
    simp only [UInt64.size] at small
    omega
  · next whole =>
    have : txSize.toNat % 1024 = 0 := remainder.symm.trans (congrArg UInt64.toNat (Decidable.of_not_not whole))
    omega

theorem calculateTxFee_toNat (txSize outputCount newAddresses multisig : UInt64) :
    (calculateTxFee txSize outputCount newAddresses multisig).toNat =
      ((txSize.toNat + 1023) / 1024 * 100 + outputCount.toNat * 1000 + newAddresses.toNat * 100000 +
        multisig.toNat * 1000) % 2 ^ 64 := by
  have kb := sizeInKb_eq txSize
  simp only [calculateTxFee]
  generalize (if txSize % bytesPerKb ≠ 0 then txSize / bytesPerKb + 1 else txSize / bytesPerKb) = sizeInKb at kb ⊢
  show (((sizeInKb.toNat * 100 % 2 ^ 64 + outputCount.toNat * 1000 % 2 ^ 64) % 2 ^ 64 +
    newAddresses.toNat * 100000 % 2 ^ 64) % 2 ^ 64 + multisig.toNat * 1000 % 2 ^ 64) % 2 ^ 64 = _
  omega

example : (calculateTxFee 2500 2 1 3).toNat = 3 * 100 + 5 * 1000 + 100000 := by
  rw [calculateTxFee_toNat]
  rfl

end Dapa.Common
