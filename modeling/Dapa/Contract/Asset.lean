import Mathlib.Data.List.Basic

/-!
# Creating an asset from a contract

`asset_create` (`contract/opaque/asset/manager.rs`) reads its parameters, checks the ticker and
the name, and derives the asset's hash from the contract and the id. For a new asset it
registers the asset in the chain state, mints the maximum supply to the contract, pushes a
`NewAsset` output, and only then charges `COST_PER_TOKEN` gas. The chain state is reached
through `&mut Context`, so a failure keeps every write made before it: the function runs in
`EStateM`, whose error result carries the state. `AssetOwner`, `AssetData`, `VersionedState`,
`AssetChanges` and `ContractOutput` are modelled from the spec, with the cases this file uses:
their source is not in this repository.
-/

namespace Dapa.Contract

abbrev Hash := Nat

def tickerLen : Nat := 8

def isValidCharForAsset (c : Char) (whitespace uppercaseOnly : Bool) : Bool :=
  ('A' ≤ c && c ≤ 'Z') || ('0' ≤ c && c ≤ '9') || (!uppercaseOnly && 'a' ≤ c && c ≤ 'z') ||
    (whitespace && c == ' ')

def isValidStrForAsset (name : String) (whitespace uppercaseOnly : Bool) : Bool :=
  if whitespace && (name.toList.head? == some ' ' || name.toList.getLast? == some ' ') then false
  else name.toList.all fun c => isValidCharForAsset c whitespace uppercaseOnly

/-- Modelled from the spec: the VM's values as `asset_create` reads them (`xelis_vm` is not in
this repository). -/
inductive Value where
  | null
  | u8 (value : UInt8)
  | u64 (value : UInt64)
  | string (value : String)
  | opaqueAsset (hash : Hash)
  deriving DecidableEq, Repr

/-- Modelled from the spec: `EnvironmentError`, with the cases `asset_create` can return. -/
inductive EnvironmentError where
  | expect (message : String)
  | invalidType
  | notEnoughGas
  | provider
  deriving DecidableEq, Repr

def Value.takeAsOptional : Value → Option Value
  | .null => none
  | value => some value

def Value.toU64 : Value → Except EnvironmentError UInt64
  | .u64 value => .ok value
  | _ => .error .invalidType

def Value.toU8 : Value → Except EnvironmentError UInt8
  | .u8 value => .ok value
  | _ => .error .invalidType

def Value.intoString : Value → Except EnvironmentError String
  | .string value => .ok value
  | _ => .error .invalidType

structure FnParams where
  id : Value
  name : Value
  ticker : Value
  decimals : Value
  maxSupply : Value
  deriving DecidableEq, Repr

structure AssetOwner where
  contract : Hash
  id : UInt64
  deriving DecidableEq, Repr

structure AssetData where
  decimals : UInt8
  name : String
  ticker : String
  maxSupply : Option UInt64
  owner : Option AssetOwner
  deriving DecidableEq, Repr

inductive VersionedState where
  | new
  | fetchedAt (topoheight : UInt64)
  deriving DecidableEq, Repr

structure AssetChanges where
  data : VersionedState × AssetData
  supply : Option (VersionedState × UInt64)
  deriving DecidableEq, Repr

inductive ContractOutput where
  | newAsset (asset : Hash)
  deriving DecidableEq, Repr

/-- Modelled from the spec: the parts of `ChainState` that `asset_create` reads or writes. -/
structure ChainState where
  contract : Hash
  topoheight : UInt64
  assets : List (Hash × Option AssetChanges)
  balances : List (Hash × Option (VersionedState × UInt64))
  outputs : List ContractOutput
  deriving DecidableEq, Repr

/-- Modelled from the spec: the VM's `Context`, as the chain state and the gas meter. -/
structure Context where
  chainState : ChainState
  currentGas : Nat
  maxGas : Nat
  deriving DecidableEq, Repr

def mapInsert {V : Type} (map : List (Hash × V)) (key : Hash) (value : V) : List (Hash × V) :=
  (key, value) :: map.filter fun entry => entry.1 != key

/-- Modelled from the spec: `Context::increase_gas_usage`, which fails past the limit. -/
def increaseGasUsage (gas : Nat) : EStateM EnvironmentError Context Unit := do
  let context ← get
  if context.currentGas + gas ≤ context.maxGas then set { context with currentGas := context.currentGas + gas }
  else throw .notEnoughGas

/-! ### `asset_create`

The functions below take the collaborators `asset_create` calls: `assetHash` is the blake3 hash
of the contract's bytes followed by the id's big-endian bytes, `loadAssetData` is
`ContractProvider::load_asset_data` (the asset's topoheight and data, if it exists), and
`costPerToken` is `COST_PER_TOKEN`, which the repository's `config.rs` does not define. -/

section

variable (assetHash : Hash → UInt64 → Hash)
variable (loadAssetData : Hash → UInt64 → Except EnvironmentError (Option (UInt64 × AssetData)))
variable (costPerToken : Nat)

/-- Modelled from the spec: `get_optional_asset_from_cache` (`contract/mod.rs`, not in this
repository), cached on a miss. -/
def getOptionalAssetFromCache (asset : Hash) : EStateM EnvironmentError Context (Option AssetChanges) := do
  let context ← get
  match context.chainState.assets.lookup asset with
  | some changes => pure changes
  | none =>
    match loadAssetData asset context.chainState.topoheight with
    | .error error => throw error
    | .ok data =>
      let changes := data.map fun loaded => { data := (.fetchedAt loaded.1, loaded.2), supply := none }
      set { context with chainState := { context.chainState with
        assets := mapInsert context.chainState.assets asset changes } }
      pure changes

def liftExcept {α : Type} : Except EnvironmentError α → EStateM EnvironmentError Context α
  | .ok value => pure value
  | .error error => throw error

def assetCreateBody (params : FnParams) : EStateM EnvironmentError Context (Option Value) := do
  let maxSupply ← match params.maxSupply.takeAsOptional with
    | some value => some <$> liftExcept value.toU64
    | none => pure none
  let decimals ← liftExcept params.decimals.toU8
  let ticker ← liftExcept params.ticker.intoString
  if ticker.utf8ByteSize > tickerLen then
    throw (.expect "Asset ticker is too long")
  if !isValidStrForAsset ticker false true then
    throw (.expect "Asset ticker must be ASCII only")
  let name ← liftExcept params.name.intoString
  if name.utf8ByteSize > 255 then
    throw (.expect "Asset name is too long")
  if !isValidStrForAsset name true false then
    throw (.expect "Asset name must be ASCII only")
  let id ← liftExcept params.id.toU64
  let contract := (← get).chainState.contract
  let asset := assetHash contract id
  if (← getOptionalAssetFromCache loadAssetData asset).isSome then
    return some .null
  let data : AssetData := ⟨decimals, name, ticker, maxSupply, some ⟨contract, id⟩⟩
  modify fun context => { context with chainState := { context.chainState with
    assets := mapInsert context.chainState.assets asset (some { data := (.new, data), supply := none }) } }
  if let some supply := maxSupply then
    modify fun context => { context with chainState := { context.chainState with
      balances := mapInsert context.chainState.balances asset (some (.new, supply)) } }
  modify fun context => { context with chainState := { context.chainState with
    outputs := context.chainState.outputs ++ [.newAsset asset] } }
  increaseGasUsage costPerToken
  return some (.opaqueAsset asset)

def assetCreate (params : FnParams) (context : Context) :
    Context × Except EnvironmentError (Option Value) :=
  match (assetCreateBody assetHash loadAssetData costPerToken params).run context with
  | .ok value after => (after, .ok value)
  | .error error after => (after, .error error)

def assetGetByIdBody (id : Value) : EStateM EnvironmentError Context (Option Value) := do
  let id ← liftExcept id.toU64
  let asset := assetHash (← get).chainState.contract id
  if (← getOptionalAssetFromCache loadAssetData asset).isNone then
    return some .null
  return some (.opaqueAsset asset)

def assetGetById (id : Value) (context : Context) : Context × Except EnvironmentError (Option Value) :=
  match (assetGetByIdBody assetHash loadAssetData id).run context with
  | .ok value after => (after, .ok value)
  | .error error after => (after, .error error)

/-! ### Running the call -/

section Run

variable {σ α β : Type}

@[simp] theorem run_bind (x : EStateM EnvironmentError σ α) (f : α → EStateM EnvironmentError σ β) (s : σ) :
    (x >>= f).run s = match x.run s with
      | .ok a s' => (f a).run s'
      | .error e s' => .error e s' := by
  delta EStateM.run
  show EStateM.bind x f s = _
  delta EStateM.bind
  cases x s <;> rfl

@[simp] theorem run_map (f : α → β) (x : EStateM EnvironmentError σ α) (s : σ) :
    (f <$> x).run s = match x.run s with
      | .ok a s' => .ok (f a) s'
      | .error e s' => .error e s' := by
  delta EStateM.run
  show EStateM.map f x s = _
  delta EStateM.map
  cases x s <;> rfl

@[simp] theorem run_pure (a : α) (s : σ) : (pure a : EStateM EnvironmentError σ α).run s = .ok a s := rfl

@[simp] theorem run_throw (e : EnvironmentError) (s : σ) :
    (throw e : EStateM EnvironmentError σ α).run s = .error e s := rfl

@[simp] theorem run_get (s : σ) : (get : EStateM EnvironmentError σ σ).run s = .ok s s := rfl

@[simp] theorem run_set (s' s : σ) : (set s' : EStateM EnvironmentError σ PUnit).run s = .ok ⟨⟩ s' := rfl

@[simp] theorem run_modify (f : σ → σ) (s : σ) :
    (modify f : EStateM EnvironmentError σ PUnit).run s = .ok ⟨⟩ (f s) := rfl

@[simp] theorem run_ite (c : Prop) [Decidable c] (x y : EStateM EnvironmentError σ α) (s : σ) :
    (if c then x else y).run s = if c then x.run s else y.run s := by
  split <;> rfl

@[simp] theorem liftExcept_run (v : Except EnvironmentError α) (s : Context) :
    (liftExcept v).run s = match v with
      | .ok a => .ok a s
      | .error e => .error e s := by
  cases v <;> rfl

end Run

theorem Value.eq_of_toU64 {value : Value} {n : UInt64} (read : value.toU64 = .ok n) : value = .u64 n := by
  cases value <;> simp_all [Value.toU64]

theorem lookup_mapInsert_self {V : Type} (map : List (Hash × V)) (key : Hash) (value : V) :
    (mapInsert map key value).lookup key = some value := by
  simp [mapInsert, List.lookup_cons]

theorem getOptionalAssetFromCache_run (asset : Hash) (context : Context) :
    (∃ found cached, (getOptionalAssetFromCache loadAssetData asset).run context = .ok found cached ∧
      cached.chainState.assets.lookup asset = some found ∧
      cached.chainState.contract = context.chainState.contract ∧
      cached.chainState.outputs = context.chainState.outputs ∧ cached.currentGas = context.currentGas ∧
      cached.maxGas = context.maxGas) ∨
    ∃ error, (getOptionalAssetFromCache loadAssetData asset).run context = .error error context := by
  unfold getOptionalAssetFromCache
  simp only [run_bind, run_get]
  split
  · next hit => exact .inl ⟨_, _, rfl, hit, rfl, rfl, rfl, rfl⟩
  · split
    · exact .inr ⟨_, rfl⟩
    · exact .inl ⟨_, _, rfl, lookup_mapInsert_self .., rfl, rfl, rfl, rfl⟩

theorem assetCreateBody_run (params : FnParams) (context : Context) :
    (∃ error, (assetCreateBody assetHash loadAssetData costPerToken params).run context = .error error context) ∨
    ∃ id found cached, params.id = .u64 id ∧
      cached.chainState.assets.lookup (assetHash context.chainState.contract id) = some found ∧
      cached.chainState.contract = context.chainState.contract ∧
      cached.chainState.outputs = context.chainState.outputs ∧ cached.currentGas = context.currentGas ∧
      cached.maxGas = context.maxGas ∧
      ((found.isSome = true ∧
          (assetCreateBody assetHash loadAssetData costPerToken params).run context = .ok (some .null) cached) ∨
        (found = none ∧ ∃ after,
          ((cached.currentGas + costPerToken ≤ cached.maxGas ∧
              after.currentGas = cached.currentGas + costPerToken ∧
              (assetCreateBody assetHash loadAssetData costPerToken params).run context =
                .ok (some (.opaqueAsset (assetHash context.chainState.contract id))) after) ∨
            (cached.maxGas < cached.currentGas + costPerToken ∧ after.currentGas = cached.currentGas ∧
              (assetCreateBody assetHash loadAssetData costPerToken params).run context =
                .error .notEnoughGas after)) ∧
          after.chainState.contract = cached.chainState.contract ∧
          (∃ changes, after.chainState.assets.lookup (assetHash context.chainState.contract id) = some (some changes)) ∧
          after.chainState.outputs =
            cached.chainState.outputs ++ [.newAsset (assetHash context.chainState.contract id)] ∧
          after.maxGas = cached.maxGas)) := by
  generalize run : (assetCreateBody assetHash loadAssetData costPerToken params).run context = result
  unfold assetCreateBody at run
  split at run
  on_goal 1 =>
    rename_i value _
    rcases readSupply : value.toU64 with e | supply
    · simp only [run_bind, run_map, liftExcept_run, readSupply] at run
      exact .inl ⟨e, run.symm⟩
    simp only [run_bind, run_map, liftExcept_run, readSupply] at run
  on_goal 2 => simp only [run_bind, run_pure, liftExcept_run] at run
  -- Whatever the maximum supply, the checks follow in the source's order.
  all_goals
    rcases readDecimals : params.decimals.toU8 with e | decimals
    · simp only [readDecimals] at run
      exact .inl ⟨e, run.symm⟩
    rcases readTicker : params.ticker.intoString with e | ticker
    · simp only [readDecimals, readTicker] at run
      exact .inl ⟨e, run.symm⟩
    simp only [readDecimals, readTicker, run_ite, run_bind, run_throw, run_pure] at run
    by_cases long : ticker.utf8ByteSize > tickerLen
    · simp only [long, if_true] at run
      exact .inl ⟨_, run.symm⟩
    by_cases invalid : (!isValidStrForAsset ticker false true) = true
    · simp only [long, invalid, if_true, if_false] at run
      exact .inl ⟨_, run.symm⟩
    rcases readName : params.name.intoString with e | name
    · simp only [long, invalid, if_false, readName, liftExcept_run] at run
      exact .inl ⟨e, run.symm⟩
    simp only [long, invalid, if_false, readName, liftExcept_run] at run
    by_cases nameLong : name.utf8ByteSize > 255
    · simp only [nameLong, if_true] at run
      exact .inl ⟨_, run.symm⟩
    by_cases nameInvalid : (!isValidStrForAsset name true false) = true
    · simp only [nameLong, nameInvalid, if_true, if_false] at run
      exact .inl ⟨_, run.symm⟩
    rcases readId : params.id.toU64 with e | id
    · simp only [nameLong, nameInvalid, if_false, readId, liftExcept_run] at run
      exact .inl ⟨e, run.symm⟩
    simp only [nameLong, nameInvalid, if_false, readId, liftExcept_run, run_get, Bool.false_eq_true] at run
    rcases getOptionalAssetFromCache_run loadAssetData (assetHash context.chainState.contract id) context with
      ⟨found, cached, load, entry, contract, outputs, gas, limit⟩ | ⟨e, load⟩
    · simp only [load] at run
      refine .inr ⟨id, found, cached, Value.eq_of_toU64 readId, entry, contract, outputs, gas, limit, ?_⟩
      by_cases present : found.isSome = true
      · simp only [present, if_true] at run
        exact .inl ⟨present, run.symm⟩
      simp only [present, Bool.false_eq_true, if_false, run_modify, run_bind, increaseGasUsage, run_get,
        run_ite, run_set, run_throw] at run
      by_cases fits : cached.currentGas + costPerToken ≤ cached.maxGas
      · simp only [fits, if_true] at run
        refine .inr ⟨Option.not_isSome_iff_eq_none.mp present, _, .inl ⟨fits, rfl, run.symm⟩, rfl,
          ⟨_, lookup_mapInsert_self ..⟩, rfl, rfl⟩
      · simp only [fits, if_false] at run
        refine .inr ⟨Option.not_isSome_iff_eq_none.mp present, _, .inr ⟨by omega, ?_, run.symm⟩, rfl,
          ⟨_, lookup_mapInsert_self ..⟩, rfl, rfl⟩
        rfl
    · simp only [load] at run
      exact .inl ⟨e, run.symm⟩

theorem getOptionalAssetFromCache_run_of_lookup {asset : Hash} {context : Context}
    {found : Option AssetChanges} (hit : context.chainState.assets.lookup asset = some found) :
    (getOptionalAssetFromCache loadAssetData asset).run context = .ok found context := by
  simp [getOptionalAssetFromCache, hit]

theorem assetGetById_of_lookup {context : Context} {contract : Hash} {id : UInt64}
    {found : Option AssetChanges} (sameContract : context.chainState.contract = contract)
    (hit : context.chainState.assets.lookup (assetHash contract id) = some found) (present : found.isSome = true) :
    assetGetById assetHash loadAssetData (.u64 id) context =
      (context, .ok (some (.opaqueAsset (assetHash contract id)))) := by
  subst sameContract
  simp [assetGetById, assetGetByIdBody, Value.toU64, getOptionalAssetFromCache_run_of_lookup loadAssetData hit,
    Option.isSome_iff_ne_none.mp present]

/-- `asset_create` writes nothing before its checks and reads succeed; only the gas charge after
the writes fails with them made. -/
theorem asset_create_fails_unchanged_until_gas (params : FnParams) (context after : Context)
    (error : EnvironmentError)
    (failed : assetCreate assetHash loadAssetData costPerToken params context = (after, .error error)) :
    after = context ∨
      (error = .notEnoughGas ∧ context.maxGas < context.currentGas + costPerToken ∧
        ∃ id, params.id = .u64 id ∧ after.chainState.outputs =
          context.chainState.outputs ++ [.newAsset (assetHash context.chainState.contract id)]) := by
  rcases assetCreateBody_run assetHash loadAssetData costPerToken params context with
    ⟨e, run⟩ | ⟨id, found, cached, readId, -, -, outputs, gas, limit,
      ⟨-, run⟩ | ⟨-, written, ⟨-, -, run⟩ | ⟨short, -, run⟩, -, -, writtenOutputs, -⟩⟩
  all_goals simp only [assetCreate, run, Prod.mk.injEq] at failed
  · exact .inl failed.1.symm
  · cases failed.2
  · cases failed.2
  · obtain ⟨rfl, ⟨⟩⟩ := failed
    exact .inr ⟨rfl, by omega, id, readId, by rw [writtenOutputs, outputs]⟩

/-- After `asset_create` succeeds, `asset_get_by_id` of the same id returns the asset and changes
nothing. -/
theorem asset_get_by_id_after_create (params : FnParams) (context after : Context) (result : Option Value)
    (created : assetCreate assetHash loadAssetData costPerToken params context = (after, .ok result)) :
    ∃ id, params.id = .u64 id ∧
      assetGetById assetHash loadAssetData params.id after =
        (after, .ok (some (.opaqueAsset (assetHash context.chainState.contract id)))) := by
  rcases assetCreateBody_run assetHash loadAssetData costPerToken params context with
    ⟨e, run⟩ | ⟨id, found, cached, readId, entry, contract, -, -, -,
      ⟨present, run⟩ | ⟨-, written, ⟨-, -, run⟩ | ⟨-, -, run⟩, writtenContract, ⟨changes, hit⟩, -⟩⟩
  all_goals simp only [assetCreate, run, Prod.mk.injEq] at created
  · cases created.2
  · obtain ⟨rfl, -⟩ := created
    exact ⟨id, readId, readId ▸ assetGetById_of_lookup assetHash loadAssetData contract entry present⟩
  · obtain ⟨rfl, -⟩ := created
    exact ⟨id, readId,
      readId ▸ assetGetById_of_lookup assetHash loadAssetData (writtenContract.trans contract) hit rfl⟩
  · cases created.2

end

theorem asset_create_fails_unchanged_until_gas_token :
    ∃ after, assetCreate (fun contract id => contract + id.toNat) (fun _ _ => .ok none) 95
        ⟨.u64 1, .string "Token", .string "TOK", .u8 8, .u64 1000⟩ ⟨⟨7, 3, [], [], []⟩, 10, 100⟩ =
        (after, .error .notEnoughGas) ∧
      (after = ⟨⟨7, 3, [], [], []⟩, 10, 100⟩ ∨
        (EnvironmentError.notEnoughGas = .notEnoughGas ∧ 100 < 10 + 95 ∧
          ∃ id, Value.u64 1 = .u64 id ∧ after.chainState.outputs = [] ++ [.newAsset (7 + id.toNat)])) :=
  ⟨_, rfl, asset_create_fails_unchanged_until_gas (fun contract id => contract + id.toNat) (fun _ _ => .ok none) 95
    ⟨.u64 1, .string "Token", .string "TOK", .u8 8, .u64 1000⟩ ⟨⟨7, 3, [], [], []⟩, 10, 100⟩ _ _ rfl⟩

theorem asset_get_by_id_after_create_token :
    ∃ after, assetCreate (fun contract id => contract + id.toNat) (fun _ _ => .ok none) 5
        ⟨.u64 1, .string "Token", .string "TOK", .u8 8, .u64 1000⟩ ⟨⟨7, 3, [], [], []⟩, 10, 100⟩ =
        (after, .ok (some (.opaqueAsset 8))) ∧
      ∃ id, Value.u64 1 = .u64 id ∧
        assetGetById (fun contract id => contract + id.toNat) (fun _ _ => .ok none) (.u64 1) after =
          (after, .ok (some (.opaqueAsset (7 + id.toNat)))) :=
  ⟨_, rfl, asset_get_by_id_after_create (fun contract id => contract + id.toNat) (fun _ _ => .ok none) 5
    ⟨.u64 1, .string "Token", .string "TOK", .u8 8, .u64 1000⟩ ⟨⟨7, 3, [], [], []⟩, 10, 100⟩ _ _ rfl⟩

/-- A token whose gas passes the limit fails after the asset is registered, minted and announced. -/
theorem asset_create_fails_after_registering :
    ∃ after, assetCreate (fun contract id => contract + id.toNat) (fun _ _ => .ok none) 95
        ⟨.u64 1, .string "Token", .string "TOK", .u8 8, .u64 1000⟩ ⟨⟨7, 3, [], [], []⟩, 10, 100⟩ =
        (after, .error .notEnoughGas) ∧
      after.chainState.assets.lookup 8 =
        some (some ⟨(.new, ⟨8, "Token", "TOK", some 1000, some ⟨7, 1⟩⟩), none⟩) ∧
      after.chainState.balances = [(8, some (.new, 1000))] ∧
      after.chainState.outputs = [.newAsset 8] :=
  ⟨_, rfl, rfl, rfl, rfl⟩

end Dapa.Contract
