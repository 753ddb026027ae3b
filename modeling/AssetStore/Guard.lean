import AssetStore.Capability
import AssetStore.Lib.Threads
import AssetStore.Registry

/-! The storage guard: it authorizes a request against its capability and then drives the registry
and the object store. Its calls are programs over the statements that touch shared state; run alone,
a call works on the registry, the stored objects, the single-use ledger and the clock readings still
to come. -/

namespace AssetStore

open Lib

/-- `LocalObjectStore`. -/
abbrev ObjectStore := Dict ObjectStoreLocation (List UInt8)

/-- What the guard works on. -/
structure GuardState where
  reg : Registry
  store : ObjectStore
  ledger : Ledger
  clock : Nat → Time

abbrev GuardM := EStateM Err GuardState

/-- A registry operation, run by the guard. -/
def liftRegistry {α : Type} (m : RegM α) : GuardM α := fun g =>
  match m ⟨g.reg, g.clock⟩ with
  | .ok a s => .ok a { g with reg := s.reg, clock := s.clock }
  | .error e s => .error e { g with reg := s.reg, clock := s.clock }

/-- A step of the ledger at the next clock reading. -/
def ledgerStep (step : Ledger → Time → Except Err Unit × Ledger) : GuardM Unit := fun g =>
  let out := step g.ledger (g.clock 0)
  let g' := { g with ledger := out.2, clock := fun n => g.clock (n + 1) }
  match out.1 with
  | .ok () => .ok () g'
  | .error e => .error e g'

/-! ### The object store -/

/-- `compute_checksum`. -/
def computeChecksum (env : Env) (data : List UInt8) : Text :=
  "sha256:".toList ++ env.sha256Hex data

/-- What the store reports about an object. -/
structure StoredObjectStat where
  sizeBytes : Int
  checksum : Text
  deriving DecidableEq

def statOf (env : Env) (data : List UInt8) : StoredObjectStat :=
  { sizeBytes := data.length, checksum := computeChecksum env data }

def getStored (location : ObjectStoreLocation) : GuardM (List UInt8) := fun g =>
  match g.store.get location with
  | some data => .ok data g
  | none =>
    .error { cls := .objectNotFound, message := "%s/%s", args := [location.bucket, location.key] } g

/-! ### Statements -/

/-- The statements of the guard, of the HTTP commit and of the maintenance worker. A block under
`asset_lock` is entered with the asset it locks and closed by its last registry operation, which
makes its registry changes; it is broken off when an exception leaves it. -/
inductive Cmd : Type → Type 1
  | assertUnused (cap : Capability) : Cmd Unit
  | recordSuccessfulUse (cap : Capability) : Cmd Unit
  | pruneExpired : Cmd Unit
  | reserveAsset (env : Env) (newId : Text) (req : ReserveRequest) : Cmd Asset
  | registry {β : Type} (m : RegM β) : Cmd β
  | enterLock (assetId : Text) : Cmd Asset
  | closeLock {β : Type} (assetId : Text) (m : RegM β) : Cmd β
  | breakLock (assetId : Text) : Cmd Unit
  | putObject (env : Env) (location : ObjectStoreLocation) (data : List UInt8) :
      Cmd StoredObjectStat
  | getObject (location : ObjectStoreLocation) : Cmd (List UInt8)
  | statObject (env : Env) (location : ObjectStoreLocation) : Cmd (Option StoredObjectStat)
  | deleteObject (location : ObjectStoreLocation) : Cmd Unit

/-- The generated id of a reservation. -/
def Cmd.newId {β : Type} : Cmd β → Option Text
  | .reserveAsset _ newId _ => some newId
  | _ => none

/-- A statement, run alone. `asset_lock` of the in-memory registry only reads the asset. -/
def Cmd.sem : (β : Type) → Cmd β → GuardM β
  | _, .assertUnused cap => ledgerStep fun l now => l.assertUnused cap now
  | _, .recordSuccessfulUse cap => ledgerStep fun l now => l.recordSuccessfulUse cap now
  | _, .pruneExpired => ledgerStep fun l now => (.ok (), l.prune now)
  | _, .reserveAsset env newId req => liftRegistry (AssetStore.reserveAsset env newId req)
  | _, .registry m => liftRegistry m
  | _, .enterLock assetId => liftRegistry (getAsset assetId)
  | _, .closeLock _ m => liftRegistry m
  | _, .breakLock _ => pure ()
  | _, .putObject env location data => fun g =>
    .ok (statOf env data) { g with store := g.store.set location data }
  | _, .getObject location => getStored location
  | _, .statObject env location => fun g => .ok ((g.store.get location).map (statOf env)) g
  | _, .deleteObject location => fun g => .ok () { g with store := g.store.erase location }

/-- A call of the guard. -/
abbrev GuardProg := Prog Cmd Err

/-- The call, run with no other. -/
def alone {α : Type} (p : GuardProg α) : GuardM α := p.run Cmd.sem

/-- Threads that interleave at every statement. -/
def interleaved (ι : Type) : Machine Cmd Err GuardState ι where
  exec := fun _ c g =>
    match c.sem _ g with
    | .ok b g' => some (.ok b, g')
    | .error e g' => some (.error e, g')
  leave := fun _ g => g

def registry {α : Type} (m : RegM α) : GuardProg α := .perform (.registry m)

def check {α : Type} (x : Except Err α) : GuardProg α := .ret x

/-- `with registry.asset_lock(asset_id) as asset`: the body returns the block's last registry
operation. -/
def withAssetLock {α : Type} (assetId : Text) (body : Asset → GuardProg (RegM α)) :
    GuardProg α := do
  let asset ← .perform (.enterLock assetId)
  Prog.cleaningUp (do
    let last ← body asset
    .perform (.closeLock assetId last)) (.perform (.breakLock assetId))

/-! ### Parsing and authorization -/

/-- `_ParsedAlias`. -/
structure ParsedAlias where
  space : Text
  relative : Text
  partitionId : Text
  aliasInPartition : Text
  qualified : Text
  deriving DecidableEq

/-- `_parse_alias`. -/
def parseAlias (aliasName : Text) : Except Err ParsedAlias := do
  let cleaned := stripSlash (stripSpace aliasName)
  let (spaceRaw, sep, remainder) := partitionSlash cleaned
  raiseIf (sep = false ∨ remainder = [])
    { cls := .validation, message := "alias must be qualified: 'space/partition/name...'" }
  let space ← normalizeSpace spaceRaw
  let relative ← normalizeRelativeAlias remainder
  let (partitionRaw, psep, inPartition) := partitionSlash relative
  raiseIf (psep = false ∨ inPartition = [])
    { cls := .validation
      message := "alias must include a partition and a name: 'space/partition/name'" }
  let partitionId ← normalizePartitionId partitionRaw
  let aliasInPartition ← normalizeRelativeAlias inPartition
  let qualified ← qualifiedAlias space relative
  return { space, relative, partitionId, aliasInPartition, qualified }

/-- The checks before any read or write: scope, single use, and the service allowlist. -/
def authorize (cap : Capability) (operation : Operation) (aliasName : Text) :
    GuardProg ParsedAlias := do
  let parsed ← check (parseAlias aliasName)
  let now ← registry utcnow
  check (cap.require operation parsed.qualified now)
  .perform (.assertUnused cap)
  check (assertServiceBucketAllowed cap.callerServiceId parsed.space operation)
  return parsed

/-- `authorize_write`. -/
def authorizeWrite (cap : Capability) (aliasName : Text) : GuardProg Unit := do
  let _ ← authorize cap .write aliasName

/-- `prune_consumed_capabilities`. -/
def pruneConsumedCapabilities : GuardProg Unit := .perform .pruneExpired

/-! ### Reads -/

/-- `resolve_for_read`: the asset and the place of its bytes. -/
def resolveForRead (cap : Capability) (aliasName : Text) :
    GuardProg (Asset × ObjectStoreLocation) := do
  let parsed ← authorize cap .read aliasName
  let asset ← registry (resolveAlias parsed.space parsed.relative)
  let location ← check
    (ObjectStoreLocation.forAsset asset.space asset.partitionId asset.assetId)
  return (asset, location)

/-- `read_bytes`: a single-use capability is consumed after the read. -/
def readBytes (cap : Capability) (aliasName : Text) : GuardProg (List UInt8) := do
  let (asset, location) ← resolveForRead cap aliasName
  let data ← .perform (.getObject location)
  registry (recordRead asset.assetId)
  .perform (.recordSuccessfulUse cap)
  return data

/-! ### Writes -/

/-- The optional arguments of `write_object`. -/
structure WriteOptions where
  mutable : Bool := false
  mime : Option Text := none
  expectedChecksum : Option Text := none
  ttlSeconds : Option Int := none

/-- The locked block of an upload: stores the bytes of a reservation that is still pending, and
commits it. -/
def uploadLocked (env : Env) (cap : Capability) (pendingId : Text) (location : ObjectStoreLocation)
    (data : List UInt8) (opts : WriteOptions) : GuardProg Asset :=
  withAssetLock pendingId fun locked => do
    check (raiseIf (locked.state ≠ .pending)
      { cls := .validation, message := "upload reservation is no longer pending" })
    let stat ← .perform (.putObject env location data)
    return commitAsset env pendingId stat.sizeBytes stat.checksum cap.callerServiceId opts.mime
      opts.expectedChecksum

/-- The first locked block of a cleanup: deletes the reservation, so that nothing can commit it any
more. It tells whether the bytes may be removed. -/
def fenceUpload (assetId : Text) : GuardProg Bool :=
  withAssetLock assetId fun current => do
    if current.state = .pending then
      let now ← registry utcnow
      return do
        let _ ← lifecycleUpdate current .deleted now "upload_failed".toList
        return true
    else return pure (current.state = .deleted)

/-- The second locked block of a cleanup: removes the bytes of a fenced upload. -/
def purgeUpload (assetId : Text) (location : ObjectStoreLocation) : GuardProg Unit :=
  withAssetLock assetId fun fenced => do
    if fenced.payloadDeletedAt ≠ none ∨ fenced.state ≠ .deleted then return pure ()
    else
      .perform (.deleteObject location)
      let now ← registry utcnow
      return do
        let _ ← lifecycleUpdate fenced .deleted now "upload_failed".toList true

/-- `_cleanup_failed_upload`. -/
def cleanupFailedUpload (assetId : Text) (location : ObjectStoreLocation) : GuardProg Unit :=
  Prog.tryCatch (do
    let removable ← fenceUpload assetId
    if removable then purgeUpload assetId location else pure ()) fun _ => pure ()

/-- `write_object`: reserve, put, commit. -/
def writeObject (env : Env) (newId : Text) (cap : Capability) (aliasName : Text)
    (data : List UInt8) (opts : WriteOptions := {}) : GuardProg Asset := do
  let parsed ← authorize cap .write aliasName
  let pending ← .perform (.reserveAsset env newId
    { space := parsed.space, partitionId := parsed.partitionId
      aliases := [(parsed.aliasInPartition, opts.mutable)], ownerServiceId := cap.callerServiceId
      mime := opts.mime, ttlSeconds := opts.ttlSeconds, reservedBytes := some data.length })
  let location ← check
    (ObjectStoreLocation.forAsset pending.space pending.partitionId pending.assetId)
  let asset ← Prog.cleaningUp (uploadLocked env cap pending.assetId location data opts)
    (cleanupFailedUpload pending.assetId location)
  .perform (.recordSuccessfulUse cap)
  return asset

end AssetStore
