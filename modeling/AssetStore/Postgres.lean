import AssetStore.Registry

/-! The Postgres registry, executed serially. An operation is a unit of work: its statements run one
after the other on the tables, and an exception rolls all of them back. Rows hold what the columns
hold, and the aliases of an asset are read from the alias table. -/

namespace AssetStore.Postgres

open Lib

/-- The tables of the schema. The counters and the alias rows are stored under their primary
keys. -/
structure Database where
  assets : Dict Text AssetRow := .empty
  aliases : Dict (Text × Text) AliasBinding := .empty
  tombstones : Dict (Text × Text) Time := .empty
  partitionQuotas : Dict (Text × Text) PartitionQuota := .empty
  bucketQuotas : Dict Text BucketQuota := .empty
  auditEvents : List AuditEvent := []

/-! ### Columns -/

/-- A value of a `bigint` column. -/
def IsBigint (n : Int) : Prop := -9223372036854775808 ≤ n ∧ n ≤ 9223372036854775807

instance (n : Int) : Decidable (IsBigint n) := by unfold IsBigint; infer_instance

/-- A value of a `text` column, or a string in a `jsonb` column. -/
def IsText (s : Text) : Prop := '\x00' ∉ s

instance (s : Text) : Decidable (IsText s) := by unfold IsText; infer_instance

/-- A value of a `jsonb` column. -/
def IsJson (m : Mapping) : Prop := ∀ entry ∈ m.entries, IsText entry.1 ∧ IsText entry.2

instance (m : Mapping) : Decidable (IsJson m) := by unfold IsJson; infer_instance

/-- The values of a row of `assets` are values of their columns. -/
def RowFits (row : AssetRow) : Prop :=
  (∀ s ∈ [row.assetId, row.space, row.partitionId, row.storageKey, row.checksumAlgo,
    row.ownerServiceId] ++ row.mime.toList ++ row.checksum.toList, IsText s) ∧
  (∀ n ∈ row.sizeBytes.toList ++ row.reservedBytes.toList ++ [row.readCount], IsBigint n) ∧
  IsJson row.annotations

instance (row : AssetRow) : Decidable (RowFits row) := by unfold RowFits; infer_instance

/-- Every value in the tables is a value of its column. -/
def Database.Fits (db : Database) : Prop :=
  (∀ row ∈ db.assets.values, RowFits row) ∧
  (∀ b ∈ db.aliases.values,
    ∀ s ∈ [b.space, b.aliasName, b.createdByServiceId] ++ b.assetId.toList ++
      b.previousAssetId.toList, IsText s) ∧
  (∀ key ∈ db.tombstones.keys, IsText key.1 ∧ IsText key.2) ∧
  (∀ q ∈ db.partitionQuotas.values, IsText q.space ∧ IsText q.partitionId ∧
    ∀ n ∈ q.quotaBytes.toList ++ q.quotaAssetCount.toList ++ [q.usedBytes, q.usedAssetCount],
      IsBigint n) ∧
  (∀ q ∈ db.bucketQuotas.values, IsText q.space ∧
    ∀ n ∈ q.quotaBytes.toList ++ [q.usedBytes], IsBigint n) ∧
  ∀ e ∈ db.auditEvents, IsText e.target ∧ IsText e.callerServiceId ∧ IsText e.outcome ∧
    IsJson e.before ∧ IsJson e.after

instance (db : Database) : Decidable db.Fits := by unfold Database.Fits; infer_instance

/-! ### Units of work -/

/-- The tables as the transaction sees them, the configured grace period, and the clock readings
still to come. -/
structure UnitOfWork where
  db : Database
  aliasGrace : Int
  clock : Nat → Time

/-- What an operation raises: an error of `errors.py`, or an exception of the driver. -/
inductive Failure
  | domain (e : Err)
  | uniqueViolation
  | dataError
  deriving DecidableEq, Repr

/-- A computation that issues statements. -/
abbrev SqlM := EStateM Failure UnitOfWork

/-- `_transactional`, and `connection.transaction()`: an exception restores the tables. -/
def transactional {α : Type} (m : SqlM α) : SqlM α := fun t =>
  match m t with
  | .ok a t' => .ok a t'
  | .error e t' => .error e { t' with db := t.db }

/-! ### Statements -/

def utcnow : SqlM Time := fun t => .ok (t.clock 0) { t with clock := fun n => t.clock (n + 1) }

/-- A query. -/
def select {α : Type} (q : Database → α) : SqlM α := fun t => .ok (q t.db) t

/-- A statement that changes the tables. -/
def execute (f : Database → Database) : SqlM Unit := fun t => .ok () { t with db := f t.db }

def raise {α : Type} (e : Failure) : SqlM α := fun t => .error e t

/-- Code that touches no table. -/
def pureCode {α : Type} (x : Except Err α) : SqlM α := attempt (x.mapError .domain)

/-- `self._alias_grace`. -/
def aliasGrace : SqlM Int := fun t => .ok t.aliasGrace t

/-- `UPDATE assets SET ... WHERE asset_id = id`. -/
def Database.updateAsset (db : Database) (id : Text) (f : AssetRow → AssetRow) : Database :=
  { db with assets := (db.assets.get id).elim db.assets fun row => db.assets.set id (f row) }

def updateAsset (id : Text) (f : AssetRow → AssetRow) : SqlM Unit :=
  execute fun db => db.updateAsset id f

/-- `INSERT INTO assets`. -/
def insertAsset (row : AssetRow) : SqlM Unit := do
  if ((← select fun db => db.assets.get row.assetId)).isSome then raise .uniqueViolation
  else execute fun db => { db with assets := db.assets.set row.assetId row }

/-- `INSERT INTO aliases`. -/
def insertAlias (b : AliasBinding) : SqlM Unit := do
  if ((← select fun db => db.aliases.get (b.space, b.aliasName))).isSome then raise .uniqueViolation
  else execute fun db => { db with aliases := db.aliases.set (b.space, b.aliasName) b }

/-- `UPDATE aliases SET ... WHERE space = normSpace AND alias = normAlias`. -/
def updateAlias (normSpace normAlias : Text) (f : AliasBinding → AliasBinding) : SqlM Unit :=
  execute fun db =>
    { db with
      aliases := (db.aliases.get (normSpace, normAlias)).elim db.aliases fun b =>
        db.aliases.set (normSpace, normAlias) (f b) }

/-- `_write_audit`. -/
def writeAudit (action : AuditAction) (target callerServiceId : Text) (before after : Mapping)
    (outcome : Text := "success".toList) : SqlM Unit := do
  let ts ← utcnow
  execute fun db =>
    { db with
      auditEvents := db.auditEvents ++
        [{ action, target, callerServiceId, outcome, before, after, ts }] }

/-! ### Rows -/

/-- The keys `space/alias` of the alias rows that refer to an asset. -/
def Database.aliasNames (db : Database) (row : AssetRow) : Finset Text :=
  ((db.aliases.values.filter fun b => b.assetId = some row.assetId).map fun b =>
    row.space ++ '/' :: b.aliasName).toFinset

/-- `_asset_from_row`. -/
def Database.assetFromRow (db : Database) (row : AssetRow) : Asset :=
  { row with aliases := db.aliasNames row }

/-- `_load_asset`. -/
def loadAsset (assetId : Text) : SqlM Asset := do
  let row ← select fun db => db.assets.get assetId
  let row ← pureCode (someOr row { cls := .assetNotFound, message := "%s", args := [assetId] })
  select fun db => db.assetFromRow row

/-- The row that a transition locks. -/
def selectForUpdate (assetId : Text) : SqlM AssetRow := do
  let row ← select fun db => db.assets.get assetId
  pureCode (someOr row { cls := .assetNotFound, message := "%s", args := [assetId] })

/-- `_load_binding`. -/
def loadBinding (normSpace normAlias : Text) : SqlM AliasBinding := do
  let row ← select fun db => db.aliases.get (normSpace, normAlias)
  pureCode (someOr row
    { cls := .aliasNotFound, message := "%s/%s", args := [normSpace, normAlias] })

/-! ### Quotas -/

/-- The stored or default counters of a partition. -/
def Database.partitionAt (db : Database) (space partitionId : Text) : PartitionQuota :=
  (db.partitionQuotas.get (space, partitionId)).getD (defaultPartition space partitionId)

def Database.bucketAt (db : Database) (space : Text) : BucketQuota :=
  (db.bucketQuotas.get space).getD { space }

/-- `INSERT INTO partition_quotas ... ON CONFLICT DO NOTHING`. -/
def Database.touchPartition (db : Database) (space partitionId : Text) : Database :=
  { db with
    partitionQuotas :=
      db.partitionQuotas.set (space, partitionId) (db.partitionAt space partitionId) }

def Database.touchBucket (db : Database) (space : Text) : Database :=
  { db with bucketQuotas := db.bucketQuotas.set space (db.bucketAt space) }

/-- `_partition_quota`: with `forUpdate` the row is inserted first, and locked. -/
def partitionQuota (normSpace normPartition : Text) (forUpdate : Bool := false) :
    SqlM PartitionQuota := do
  (if forUpdate then execute fun db => db.touchPartition normSpace normPartition else pure ())
  select fun db => db.partitionAt normSpace normPartition

/-- `_bucket_quota`. -/
def bucketQuota (normSpace : Text) (forUpdate : Bool := false) : SqlM BucketQuota := do
  (if forUpdate then execute fun db => db.touchBucket normSpace else pure ())
  select fun db => db.bucketAt normSpace

/-- The rows of a space that are pending with a reserved size, except `exclude`. -/
def Database.sizedPending (db : Database) (space : Text) (exclude : Option Text) : List AssetRow :=
  db.assets.values.filter fun row =>
    row.space = space ∧ row.state = .pending ∧ row.reservedBytes ≠ none ∧ exclude ≠ some row.assetId

/-- `COALESCE(SUM(reserved_bytes), 0)`. -/
def sumReserved (rows : List AssetRow) : Int := (rows.map fun row => row.reservedBytes.getD 0).sum

/-- `COALESCE(SUM(COALESCE(size_bytes, reserved_bytes)), 0)` over the unpurged rows of a space. -/
def Database.physicalBytes (db : Database) (space : Text) (exclude : Option Text) : Int :=
  ((db.assets.values.filter fun row =>
    row.space = space ∧ row.payloadDeletedAt = none ∧ exclude ≠ some row.assetId).map fun row =>
      row.physicalBytes).sum

/-- `_enforce_quota`. -/
def enforceQuota (env : Env) (space partitionId : Text) (newBytes : Int)
    (exclude : Option Text := none) : SqlM Unit := do
  let pq ← partitionQuota space partitionId true
  let bq ← bucketQuota space true
  let pending ← select fun db => db.sizedPending space exclude
  let partitionPending := pending.filter fun row => row.partitionId = partitionId
  pureCode (raiseIf (∃ q ∈ pq.quotaBytes,
      (q : Rat) * partitionHardRatio ≤ (pq.usedBytes + sumReserved partitionPending +
        newBytes : Int))
    { cls := .quotaExceeded .partition, message := "partition quota exceeded for %s/%s"
      args := [pq.space, pq.partitionId] })
  pureCode (raiseIf (∃ q ∈ pq.quotaAssetCount,
      q < pq.usedAssetCount + partitionPending.length + 1)
    { cls := .quotaExceeded .partition, message := "partition asset-count quota exceeded for %s/%s"
      args := [pq.space, pq.partitionId] })
  let limits ← pureCode (capacityLimits env)
  (if (limits.lookup space).isSome then do
      let usage ← select fun db => db.physicalBytes space exclude
      pureCode (enforceCapacity env space (usage + newBytes))
    else pure ())
  pureCode (raiseIf (∃ q ∈ bq.quotaBytes,
      (q : Rat) * bq.hardCeiling ≤ (bq.usedBytes + sumReserved pending + newBytes : Int))
    { cls := .quotaExceeded .bucket, message := "bucket quota exceeded for %s"
      args := [bq.space] })

/-- `_acquire_quota`: two upserts that count an asset in. -/
def acquireQuota (space partitionId : Text) (nbytes : Int) : SqlM Unit := do
  execute fun db =>
    { db with
      partitionQuotas := db.partitionQuotas.set (space, partitionId)
        (match db.partitionQuotas.get (space, partitionId) with
        | none =>
          { space, partitionId, usedBytes := nbytes, usedAssetCount := 1
            evictionSweepEnabled := space ∈ sweepDefaultSpaces }
        | some q =>
          { q with usedBytes := q.usedBytes + nbytes, usedAssetCount := q.usedAssetCount + 1 }) }
  execute fun db =>
    { db with
      bucketQuotas := db.bucketQuotas.set space
        (match db.bucketQuotas.get space with
        | none => { space, usedBytes := nbytes }
        | some q => { q with usedBytes := q.usedBytes + nbytes }) }

/-- `_release_quota`: two updates that count an asset out, without going below zero. -/
def releaseQuota (space partitionId : Text) (nbytes : Int) : SqlM Unit := do
  execute fun db =>
    { db with
      partitionQuotas := (db.partitionQuotas.get (space, partitionId)).elim
        db.partitionQuotas fun q =>
        db.partitionQuotas.set (space, partitionId)
          { q with
            usedBytes := max 0 (q.usedBytes - nbytes)
            usedAssetCount := max 0 (q.usedAssetCount - 1) } }
  execute fun db =>
    { db with
      bucketQuotas := (db.bucketQuotas.get space).elim db.bucketQuotas fun q =>
        db.bucketQuotas.set space { q with usedBytes := max 0 (q.usedBytes - nbytes) } }

/-! ### Alias names -/

/-- `_require_alias_name_available`: neither bound nor within its grace period; an elapsed tombstone
is deleted. -/
def requireAliasNameAvailable (normSpace aliasName : Text) : SqlM Unit := do
  let existing ← select fun db => db.aliases.get (normSpace, aliasName)
  pureCode (raiseIf existing.isSome
    { cls := .aliasConflict, message := "alias %s/%r already exists",
      args := [normSpace, aliasName] })
  let tomb ← select fun db => db.tombstones.get (normSpace, aliasName)
  match tomb with
  | none => pure ()
  | some graceUntil => do
    let now ← utcnow
    if graceUntil ≤ now then
      execute fun db => { db with tombstones := db.tombstones.erase (normSpace, aliasName) }
    else
      raise (.domain
        { cls := .aliasConflict, message := "alias %s/%r already exists or is within grace period"
          args := [normSpace, aliasName] })

/-- The names of a reservation, one after the other. -/
def requireNamesAvailable (normSpace : Text) : List Text → SqlM Unit
  | [] => pure ()
  | scopedAlias :: rest => do
    requireAliasNameAvailable normSpace scopedAlias
    requireNamesAvailable normSpace rest

/-- `_mark_for_gc_if_orphaned`: an asset that no alias row refers to expires. -/
def markForGcIfOrphaned (assetId callerServiceId : Text) : SqlM Unit := do
  let remaining ← select fun db => db.aliases.values.any fun b => b.assetId = some assetId
  if remaining then pure ()
  else do
    let row ← select fun db => db.assets.get assetId
    match row with
    | none => pure ()
    | some row =>
      if row.state = .expired ∨ row.state = .deleted then pure ()
      else do
        let updatedAt ← utcnow
        let expiredAt ← utcnow
        updateAsset assetId fun row =>
          { row with state := .expired, updatedAt, expiredAt := some expiredAt }
        (if row.state = .available then
            releaseQuota row.space row.partitionId (row.sizeBytes.getD 0)
          else pure ())
        writeAudit .gcMark assetId callerServiceId
          (mapping [("state".toList, row.state.value), ("reason".toList, "zero_aliases".toList)])
          (mapping [("state".toList, AssetState.expired.value)])

/-! ### Public operations -/

/-- `record_capability_issue`. -/
def recordCapabilityIssue (env : Env) (callerServiceId operation scopePrefix : Text)
    (ttlSeconds : Int) (outcome : Text) (capabilityId : Option Text := none) : SqlM Unit :=
  transactional <| writeAudit .capabilityIssue scopePrefix callerServiceId (mapping [])
    (mapping ([("operation".toList, operation), ("ttl_seconds".toList, showInt ttlSeconds)] ++
      capabilityId.toList.map fun id => ("capability_fingerprint".toList, env.sha256Hex (utf8 id))))
    outcome

/-- Inserts the alias rows of a reservation, each with its audit event. -/
def insertNames (normSpace assetId ownerServiceId : Text) (now : Time) :
    List (Text × Bool) → SqlM Unit
  | [] => pure ()
  | (scopedAlias, mutable) :: rest => do
    insertAlias
      { space := normSpace, aliasName := scopedAlias, assetId := some assetId, mutable
        previousAssetId := none, createdAt := now, updatedAt := now
        createdByServiceId := ownerServiceId }
    writeAudit .aliasCreate (normSpace ++ '/' :: scopedAlias) ownerServiceId (mapping [])
      (mapping [("asset_id".toList, assetId), ("mutable".toList, showLower mutable)])
    insertNames normSpace assetId ownerServiceId now rest

/-- A sized reservation counts against the quotas at once. -/
def admitReservation (env : Env) (normSpace normPartition : Text) : Option Int → SqlM Unit
  | none => pure ()
  | some n => enforceQuota env normSpace normPartition n

def auditReservation (assetId ownerServiceId : Text) : Option Int → SqlM Unit
  | none => pure ()
  | some n =>
    writeAudit .uploadReserve assetId ownerServiceId (mapping [])
      (mapping [("reserved_bytes".toList, showInt n)])

/-- `reserve_asset`. -/
def reserveAsset (env : Env) (newId : Text) (req : ReserveRequest) : SqlM Asset := transactional do
  pureCode (raiseIf (∃ n ∈ req.reservedBytes, n < 0)
    { cls := .validation, message := "reserved_bytes must be a nonnegative integer" })
  let normSpace ← pureCode (normalizeSpace req.space)
  let normPartition ← pureCode (normalizePartitionId req.partitionId)
  let specs ← pureCode (normalizeAliasSpecs req.aliases)
  let scopedNames ← pureCode (specs.keys.mapM (aliasUnderPartition normPartition))
  let now ← utcnow
  let storageKey ← pureCode (buildStorageKey normPartition newId)
  requireNamesAvailable normSpace scopedNames
  admitReservation env normSpace normPartition req.reservedBytes
  let expiresAt ← pureCode (expiryFor env normSpace req.ttlSeconds now)
  insertAsset
    { assetId := newId, space := normSpace, partitionId := normPartition, storageKey
      state := .pending, mime := req.mime, annotations := req.annotations
      evictionPolicy := req.evictionPolicy, ownerServiceId := req.ownerServiceId
      createdAt := now, updatedAt := now, expiresAt, reservedBytes := req.reservedBytes }
  insertNames normSpace newId req.ownerServiceId now
    (scopedNames.zip (specs.keys.map fun name => (specs.get name).getD false))
  auditReservation newId req.ownerServiceId req.reservedBytes
  loadAsset newId

/-- `commit_asset`. -/
def commitAsset (env : Env) (assetId : Text) (sizeBytes : Int) (checksum callerServiceId : Text)
    (mime expectedChecksum : Option Text := none) : SqlM Asset := transactional do
  pureCode (raiseIf (sizeBytes < 0) { cls := .validation, message := "size_bytes must be >= 0" })
  let serverChecksum := stripSpace checksum
  pureCode (raiseIf (serverChecksum = [])
    { cls := .validation, message := "checksum must be non-empty" })
  pureCode (raiseIf (∃ expected ∈ expectedChecksum, expected ≠ serverChecksum)
    { cls := .checksumMismatch, message := "checksum mismatch: expected %r, got %r"
      args := expectedChecksum.toList ++ [serverChecksum] })
  let now ← utcnow
  let row ← selectForUpdate assetId
  pureCode (raiseIf (row.state ≠ .pending)
    { cls := .invalidStateTransition, message := "asset %r cannot be committed from state %r"
      args := [assetId, row.state.value] })
  pureCode (raiseIf (∃ n ∈ row.reservedBytes, n ≠ sizeBytes)
    { cls := .validation, message := "committed size must match upload reservation" })
  enforceQuota env row.space row.partitionId sizeBytes (some assetId)
  updateAsset assetId fun current =>
    { current with
      state := .available, sizeBytes := some sizeBytes, checksum := some serverChecksum
      mime := if ∃ m ∈ mime, m ≠ [] then mime else row.mime
      updatedAt := now, reservedBytes := none }
  acquireQuota row.space row.partitionId sizeBytes
  writeAudit .assetCommit assetId callerServiceId
    (mapping [("state".toList, AssetState.pending.value)])
    (mapping [("state".toList, AssetState.available.value)])
  loadAsset assetId

/-- `update_annotations`. -/
def updateAnnotations (assetId : Text) (patch : Mapping) (callerServiceId : Text)
    (overwrite : Bool := false) : SqlM Asset := transactional do
  let now ← utcnow
  let row ← selectForUpdate assetId
  pureCode (raiseIf (row.state = .deleted)
    { cls := .invalidStateTransition, message := "cannot update annotations on deleted asset %r"
      args := [assetId] })
  let merged := if overwrite then patch else patch ∪ row.annotations
  updateAsset assetId fun current => { current with annotations := merged, updatedAt := now }
  writeAudit .annotationsUpdate assetId callerServiceId row.annotations merged
  loadAsset assetId

/-- `_transition_out_of_available`. -/
def transitionOutOfAvailable (assetId callerServiceId : Text) (allowedFrom : List AssetState)
    (newState : AssetState) (action : AuditAction) (verb : Text) : SqlM Asset := do
  let now ← utcnow
  let row ← selectForUpdate assetId
  pureCode (raiseIf (row.state ∉ allowedFrom)
    { cls := .invalidStateTransition, message := "asset %r cannot %s from state %r"
      args := [assetId, verb, row.state.value] })
  updateAsset assetId fun current =>
    { current with
      state := newState, updatedAt := now
      expiredAt := if newState = .expired then some now else current.expiredAt }
  (if row.state = .available then releaseQuota row.space row.partitionId (row.sizeBytes.getD 0)
    else pure ())
  writeAudit action assetId callerServiceId (mapping [("state".toList, row.state.value)])
    (mapping [("state".toList, newState.value)])
  loadAsset assetId

/-- `expire_asset`. -/
def expireAsset (assetId callerServiceId : Text) : SqlM Asset :=
  transactional <| transitionOutOfAvailable assetId callerServiceId [.available] .expired
    .assetExpire "expire".toList

/-- `delete_asset`. -/
def deleteAsset (assetId callerServiceId : Text) : SqlM Asset :=
  transactional <| transitionOutOfAvailable assetId callerServiceId [.available, .expired] .deleted
    .assetDelete "delete".toList

/-- `set_eviction_policy`. -/
def setEvictionPolicy (assetId : Text) (evictionPolicy : EvictionPolicy) (callerServiceId : Text) :
    SqlM Asset := transactional do
  let now ← utcnow
  let row ← selectForUpdate assetId
  pureCode (raiseIf (row.state = .deleted)
    { cls := .invalidStateTransition, message := "cannot set eviction policy on deleted asset %r"
      args := [assetId] })
  updateAsset assetId fun current => { current with evictionPolicy, updatedAt := now }
  writeAudit .evictionPolicySet assetId callerServiceId
    (mapping [("eviction_policy".toList, row.evictionPolicy.value)])
    (mapping [("eviction_policy".toList, evictionPolicy.value)])
  loadAsset assetId

/-- `detach_alias`. -/
def detachAlias (space aliasName callerServiceId : Text) : SqlM Unit := transactional do
  let normSpace ← pureCode (normalizeSpace space)
  let normAlias ← pureCode (normalizeRelativeAlias aliasName)
  let binding ← loadBinding normSpace normAlias
  pureCode (raiseNaming (binding.mutable = true) binding .aliasImmutable
    "use detach_mutable_alias for mutable alias %r")
  let key ← pureCode binding.qualifiedAlias
  let assetId ← pureCode (someOr binding.assetId
    { cls := .invalidStateTransition, message := "alias %r is not bound", args := [key] })
  execute fun db => { db with aliases := db.aliases.erase (normSpace, normAlias) }
  let grace ← aliasGrace
  (if 0 < grace then do
      let now ← utcnow
      pureCode (raiseIf (maxTime < now + grace)
        { cls := .overflowError, message := "date value out of range" })
      execute fun db => { db with
        tombstones := db.tombstones.set (normSpace, normAlias) (now + grace) }
    else pure ())
  writeAudit .aliasDetach key callerServiceId (mapping [("asset_id".toList, assetId)]) (mapping [])
  let now ← utcnow
  updateAsset assetId fun current => { current with updatedAt := now }
  markForGcIfOrphaned assetId callerServiceId

/-- `detach_mutable_alias`. -/
def detachMutableAlias (space aliasName callerServiceId : Text) : SqlM AliasBinding :=
  transactional do
  let normSpace ← pureCode (normalizeSpace space)
  let normAlias ← pureCode (normalizeRelativeAlias aliasName)
  let now ← utcnow
  let binding ← loadBinding normSpace normAlias
  pureCode (raiseNaming (binding.mutable = false) binding .aliasImmutable
    "use detach_alias for immutable alias %r")
  let key ← pureCode binding.qualifiedAlias
  let oldAssetId ← pureCode (someOr binding.assetId
    { cls := .invalidStateTransition, message := "mutable alias %r is already detached"
      args := [key] })
  updateAlias normSpace normAlias fun b =>
    { b with assetId := none, previousAssetId := some oldAssetId, updatedAt := now }
  writeAudit .aliasDetachMutable key callerServiceId (mapping [("asset_id".toList, oldAssetId)])
    (mapping [("asset_id".toList, [])])
  updateAsset oldAssetId fun current => { current with updatedAt := now }
  markForGcIfOrphaned oldAssetId callerServiceId
  loadBinding normSpace normAlias

/-- `rebind_alias`. -/
def rebindAlias (space aliasName newAssetId callerServiceId : Text) : SqlM AliasBinding :=
  transactional do
  let normSpace ← pureCode (normalizeSpace space)
  let normAlias ← pureCode (normalizeRelativeAlias aliasName)
  let now ← utcnow
  let binding ← loadBinding normSpace normAlias
  pureCode (raiseNaming (binding.mutable = false) binding .aliasImmutable "alias %r is immutable")
  pureCode (raiseNaming (binding.assetId ≠ none) binding .invalidStateTransition
    "mutable alias %r must be detached before rebind")
  let newAsset ← loadAsset newAssetId
  pureCode (raiseIf (newAsset.space ≠ binding.space)
    { cls := .aliasConflict, message := "cannot rebind an alias across buckets" })
  let partition ← pureCode (partitionFromScopedAlias binding.aliasName)
  pureCode (raiseIf (newAsset.partitionId ≠ partition)
    { cls := .aliasConflict, message := "cannot rebind an alias across partitions" })
  pureCode (raiseIf (newAsset.state ≠ .available)
    { cls := .invalidStateTransition, message := "rebind target asset %r must be available, got %r"
      args := [newAssetId, newAsset.state.value] })
  updateAlias normSpace normAlias fun b =>
    { b with assetId := some newAssetId, previousAssetId := none, updatedAt := now }
  updateAsset newAssetId fun current => { current with updatedAt := now }
  let key ← pureCode binding.qualifiedAlias
  writeAudit .aliasRebind key callerServiceId
    (mapping [("asset_id".toList, binding.previousAssetId.getD [])])
    (mapping [("asset_id".toList, newAssetId)])
  loadBinding normSpace normAlias

/-- `resolve_alias`. -/
def resolveAlias (space aliasName : Text) : SqlM Asset := transactional do
  let normSpace ← pureCode (normalizeSpace space)
  let normAlias ← pureCode (normalizeRelativeAlias aliasName)
  let row ← select fun db => db.aliases.get (normSpace, normAlias)
  let row ← pureCode (someOr row
    { cls := .aliasNotFound, message := "%s/%s", args := [normSpace, normAlias] })
  let assetId ← pureCode (someOr row.assetId
    { cls := .invalidStateTransition, message := "alias %s/%r is detached pending rebind"
      args := [normSpace, normAlias] })
  let asset ← loadAsset assetId
  let now ← utcnow
  pureCode (requireLive asset now)
  pureCode (raiseIf (asset.isResolvable = false)
    { cls := .invalidStateTransition, message := "asset %r is not resolvable in state %r"
      args := [asset.assetId, asset.state.value] })
  return asset

/-- `get_partition_quota`. -/
def getPartitionQuota (space partitionId : Text) : SqlM PartitionQuota := transactional do
  let normSpace ← pureCode (normalizeSpace space)
  let normPartition ← pureCode (normalizePartitionId partitionId)
  partitionQuota normSpace normPartition

/-- `get_bucket_quota`. -/
def getBucketQuota (space : Text) : SqlM BucketQuota := transactional do
  let normSpace ← pureCode (normalizeSpace space)
  bucketQuota normSpace

/-- `set_partition_quota`. -/
def setPartitionQuota (space partitionId : Text) (quotaBytes quotaAssetCount : Option Int)
    (evictionSweepEnabled : Option Bool) (callerServiceId : Text := "system".toList) :
    SqlM PartitionQuota := transactional do
  pureCode (raiseIf (∃ q ∈ quotaBytes, q < 0)
    { cls := .validation, message := "quota_bytes must not be negative" })
  pureCode (raiseIf (∃ q ∈ quotaAssetCount, q < 0)
    { cls := .validation, message := "quota_asset_count must not be negative" })
  let normSpace ← pureCode (normalizeSpace space)
  let normPartition ← pureCode (normalizePartitionId partitionId)
  let current ← partitionQuota normSpace normPartition true
  let sweep := evictionSweepEnabled.getD current.evictionSweepEnabled
  execute fun db =>
    { db with
      partitionQuotas := db.partitionQuotas.set (normSpace, normPartition)
        (match db.partitionQuotas.get (normSpace, normPartition) with
        | none =>
          { space := normSpace, partitionId := normPartition, quotaBytes, quotaAssetCount
            usedBytes := current.usedBytes, usedAssetCount := current.usedAssetCount
            evictionSweepEnabled := sweep }
        | some q => { q with quotaBytes, quotaAssetCount, evictionSweepEnabled := sweep }) }
  writeAudit .quotaSet (normSpace ++ '/' :: normPartition) callerServiceId
    (mapping [("quota_bytes".toList, showOptionInt current.quotaBytes),
      ("quota_asset_count".toList, showOptionInt current.quotaAssetCount),
      ("eviction_sweep_enabled".toList, showBool current.evictionSweepEnabled)])
    (mapping [("quota_bytes".toList, showOptionInt quotaBytes),
      ("quota_asset_count".toList, showOptionInt quotaAssetCount),
      ("eviction_sweep_enabled".toList, showBool sweep)])
  getPartitionQuota normSpace normPartition

/-- `set_bucket_quota`. -/
def setBucketQuota (space : Text) (quotaBytes : Option Int) (warnThreshold : Rat := 4 / 5)
    (hardCeiling : Rat := 1) : SqlM BucketQuota := transactional do
  pureCode (raiseIf (∃ q ∈ quotaBytes, q < 0)
    { cls := .validation, message := "quota_bytes must not be negative" })
  let normSpace ← pureCode (normalizeSpace space)
  let current ← bucketQuota normSpace true
  execute fun db =>
    { db with
      bucketQuotas := db.bucketQuotas.set normSpace
        (match db.bucketQuotas.get normSpace with
        | none =>
          { space := normSpace, quotaBytes, usedBytes := current.usedBytes, warnThreshold,
            hardCeiling }
        | some q => { q with quotaBytes, warnThreshold, hardCeiling }) }
  getBucketQuota normSpace

/-- `audit_events`. -/
def auditEvents : SqlM (List AuditEvent) := transactional <| select Database.auditEvents

/-- `reserved_upload_bytes`. -/
def reservedUploadBytes (space : Text) : SqlM Int := transactional do
  let normSpace ← pureCode (normalizeSpace space)
  select fun db => sumReserved (db.assets.values.filter fun row =>
    row.space = normSpace ∧ row.payloadDeletedAt = none)

/-- The order in which a query without `ORDER BY` returns its rows: any order. -/
structure RowOrder where
  arrange : List AssetRow → List AssetRow
  perm : ∀ rows, (arrange rows).Perm rows

/-- `list_assets`. -/
def listAssets (order : RowOrder) : SqlM (List Asset) := transactional <| select fun db =>
  (order.arrange (db.assets.values.filter fun row => row.payloadDeletedAt = none)).map
    db.assetFromRow

/-- `record_read`. -/
def recordRead (assetId : Text) : SqlM Unit := transactional do
  let now ← utcnow
  updateAsset assetId fun row =>
    if row.state = .available then { row with lastReadAt := some now,
                                              readCount := row.readCount + 1 }
    else row

/-- `lifecycle_update`. -/
def lifecycleUpdate (a : Asset) (state : AssetState) (now : Time) (reason : Text)
    (payloadDeleted : Bool := false) : SqlM Asset := transactional do
  let current ← loadAsset a.assetId
  pureCode (raiseIf (current ≠ a)
    { cls := .invalidStateTransition, message := "lifecycle candidate changed" })
  pureCode (validateCleanupTransition a state payloadDeleted)
  updateAsset a.assetId fun row =>
    { row with
      state, updatedAt := now
      expiredAt := if state = .expired then some now else a.expiredAt
      payloadDeletedAt := if payloadDeleted then some now else a.payloadDeletedAt }
  (if a.state = .available then releaseQuota a.space a.partitionId (a.sizeBytes.getD 0)
    else pure ())
  writeAudit (if payloadDeleted then .payloadDelete else if state = .expired then .assetExpire
      else .assetDelete)
    a.assetId "lifecycle-worker".toList (mapping [("state".toList, a.state.value)])
    (mapping [("state".toList, state.value), ("reason".toList, reason)])
  loadAsset a.assetId

/-- `recent_audit`: the newest rows first, up to the limit, and then reversed. -/
def recentAudit (assetId : Option Text := none) (limit : Int := 100) : SqlM (List AuditEvent) :=
  transactional do
  pureCode (raiseIf (¬(1 ≤ limit ∧ limit ≤ 500))
    { cls := .validation, message := "audit limit must be between 1 and 500" })
  select fun db =>
    (((db.auditEvents.filter fun e => ∀ id ∈ assetId,
      e.target = id ∨ e.before.lookup "asset_id".toList = some id ∨
        e.after.lookup "asset_id".toList = some id).reverse).take limit.toNat).reverse

/-- `get_asset`. -/
def getAsset (assetId : Text) : SqlM Asset := transactional (loadAsset assetId)

/-- The row filters of a query; the prefix is matched against the alias rows of the asset. -/
def Database.selects (db : Database) (q : AssetQuery) (after : Option (Time × Text))
    (row : AssetRow) :
    Prop :=
  (∀ s ∈ q.space, row.space = s) ∧ (∀ p ∈ q.partitionId, row.partitionId = p) ∧
    (∀ s ∈ q.state, row.state = s) ∧ (∀ t ∈ q.createdFrom, t ≤ row.createdAt) ∧
    (∀ t ∈ q.createdTo, row.createdAt ≤ t) ∧
    (∀ p ∈ q.pathPrefix, ∃ b ∈ db.aliases.values, b.assetId = some row.assetId ∧
      (b.space ++ '/' :: b.aliasName = p ∨
        (b.space ++ '/' :: b.aliasName).take (p ++ ['/']).length = p ++ ['/'])) ∧
    ∀ position ∈ after, toLex position < toLex (row.createdAt, row.assetId)

instance (db : Database) (q : AssetQuery) (after : Option (Time × Text)) (row : AssetRow) :
    Decidable (db.selects q after row) := by
  unfold Database.selects; infer_instance

/-- `ORDER BY a.created_at, a.asset_id`. -/
def orderedBefore (a b : AssetRow) : Bool :=
  decide (toLex (a.createdAt, a.assetId) ≤ toLex (b.createdAt, b.assetId))

/-- `query_assets`. -/
def queryAssets (env : Env) (order : RowOrder) (q : AssetQuery) : SqlM (List Asset) :=
  transactional do
  let after ← pureCode (q.after env)
  select fun db =>
    (((order.arrange (db.assets.values.filter fun row => db.selects q after row)).mergeSort
      orderedBefore).take (q.limit + 1)).map db.assetFromRow

/-- `except psycopg.errors.UniqueViolation` around a savepoint. -/
def onUniqueViolation (m : SqlM Unit) (e : Err) : SqlM Unit := fun t =>
  match transactional m t with
  | .error .uniqueViolation t' => .error (.domain e) t'
  | r => r

/-- `attach_alias`. -/
def attachAlias (assetId aliasName : Text) (mutable : Bool) (callerServiceId : Text) :
    SqlM AliasBinding := transactional do
  let asset ← loadAsset assetId
  pureCode (raiseIf (asset.state = .deleted)
    { cls := .invalidStateTransition, message := "cannot attach to deleted asset" })
  let name ← pureCode (aliasUnderPartition asset.partitionId aliasName)
  requireAliasNameAvailable asset.space name
  let now ← utcnow
  onUniqueViolation
    (insertAlias
      { space := asset.space, aliasName := name, assetId := some assetId, mutable
        previousAssetId := none, createdAt := now, updatedAt := now
        createdByServiceId := callerServiceId })
    { cls := .aliasConflict, message := "%s", args := [name] }
  updateAsset assetId fun current => { current with updatedAt := now }
  writeAudit .aliasAttach (asset.space ++ '/' :: name) callerServiceId (mapping [])
    (mapping [("asset_id".toList, assetId), ("mutable".toList, showLower mutable)])
  loadBinding asset.space name

/-- `set_asset_ttl`. -/
def setAssetTtl (env : Env) (assetId : Text) (ttlSeconds : Int) (callerServiceId : Text) :
    SqlM Asset := transactional do
  let asset ← loadAsset assetId
  pureCode (raiseIf (asset.state ≠ .available ∧ asset.state ≠ .expired)
    { cls := .invalidStateTransition, message := "TTL requires available or expired asset" })
  pureCode (raiseIf (asset.sizeBytes = none ∨ asset.checksum = none)
    { cls := .invalidStateTransition, message := "cannot restore an uncommitted payload" })
  let now ← utcnow
  let deadline ← pureCode (expiryFor env asset.space (some ttlSeconds) now)
  (if asset.state = .expired then do
      enforceQuota env asset.space asset.partitionId (asset.sizeBytes.getD 0) (some asset.assetId)
      acquireQuota asset.space asset.partitionId (asset.sizeBytes.getD 0)
    else pure ())
  updateAsset assetId fun current =>
    { current with state := .available, expiresAt := deadline, expiredAt := none, updatedAt := now }
  writeAudit .ttlSet assetId callerServiceId
    (mapping [("expires_at".toList, showOptionTime asset.expiresAt),
      ("state".toList, asset.state.value)])
    (mapping [("expires_at".toList, showOptionTime deadline),
      ("state".toList, AssetState.available.value)])
  loadAsset assetId

/-! ### The interface -/

/-- The statements of a call on the Postgres registry. -/
def perform (env : Env) (order : RowOrder) : Op → SqlM Reply
  | .recordCapabilityIssue caller operation scopePrefix ttl outcome capabilityId => do
    recordCapabilityIssue env caller operation scopePrefix ttl outcome capabilityId
    return .none
  | .reserveAsset newId req => do return .asset (← reserveAsset env newId req)
  | .attachAlias id name mutable caller => do return .binding (← attachAlias id name mutable caller)
  | .commitAsset id size checksum caller mime expected => do
    return .asset (← commitAsset env id size checksum caller mime expected)
  | .updateAnnotations id patch caller overwrite => do
    return .asset (← updateAnnotations id patch caller overwrite)
  | .resolveAlias space name => do return .asset (← resolveAlias space name)
  | .detachAlias space name caller => do
    detachAlias space name caller
    return .none
  | .detachMutableAlias space name caller => do
    return .binding (← detachMutableAlias space name caller)
  | .rebindAlias space name newId caller => do
    return .binding (← rebindAlias space name newId caller)
  | .expireAsset id caller => do return .asset (← expireAsset id caller)
  | .deleteAsset id caller => do return .asset (← deleteAsset id caller)
  | .setEvictionPolicy id policy caller => do return .asset (← setEvictionPolicy id policy caller)
  | .setPartitionQuota space pid bytes count sweep caller => do
    return .partitionQuota (← setPartitionQuota space pid bytes count sweep caller)
  | .setBucketQuota space bytes warn hard => do
    return .bucketQuota (← setBucketQuota space bytes warn hard)
  | .getPartitionQuota space pid => do return .partitionQuota (← getPartitionQuota space pid)
  | .getBucketQuota space => do return .bucketQuota (← getBucketQuota space)
  | .reservedUploadBytes space => do return .bytes (← reservedUploadBytes space)
  | .listAssets => do return .assets (← listAssets order)
  | .recordRead id => do
    recordRead id
    return .none
  | .lifecycleUpdate a state now reason payloadDeleted => do
    return .asset (← lifecycleUpdate a state now reason payloadDeleted)
  | .recentAudit id limit => do return .events (← recentAudit id limit)
  | .getAsset id => do return .asset (← getAsset id)
  | .queryAssets q => do return .assets (← queryAssets env order q)
  | .setAssetTtl id ttl caller => do return .asset (← setAssetTtl env id ttl caller)
  | .auditEvents => do return .events (← auditEvents)

/-- A statement fails that would store what its column cannot hold, and the operation with it. -/
def checked {α : Type} (m : SqlM α) : SqlM α := fun t =>
  match m t with
  | .ok a t' => if t'.db.Fits then .ok a t' else .error .dataError { t' with db := t.db }
  | .error e t' => .error e t'

/-- The call, on the Postgres registry. -/
def run (env : Env) (order : RowOrder) (op : Op) : SqlM Reply := checked (perform env order op)

/-- The texts that a call hands to the database. -/
def parameters : Op → List Text
  | .recordCapabilityIssue caller operation scopePrefix _ outcome capabilityId =>
    [caller, operation, scopePrefix, outcome] ++ capabilityId.toList
  | .reserveAsset newId req =>
    [newId, req.space, req.partitionId, req.ownerServiceId] ++ req.aliases.map Prod.fst
  | .attachAlias id name _ caller => [id, name, caller]
  | .commitAsset id _ checksum caller mime expected =>
    [id, checksum, caller] ++ mime.toList ++ expected.toList
  | .updateAnnotations id _ caller _ => [id, caller]
  | .resolveAlias space name => [space, name]
  | .detachAlias space name caller => [space, name, caller]
  | .detachMutableAlias space name caller => [space, name, caller]
  | .rebindAlias space name newId caller => [space, name, newId, caller]
  | .expireAsset id caller => [id, caller]
  | .deleteAsset id caller => [id, caller]
  | .setEvictionPolicy id _ caller => [id, caller]
  | .setPartitionQuota space pid _ _ _ caller => [space, pid, caller]
  | .setBucketQuota space _ _ _ => [space]
  | .getPartitionQuota space pid => [space, pid]
  | .getBucketQuota space => [space]
  | .reservedUploadBytes space => [space]
  | .listAssets => []
  | .recordRead id => [id]
  | .lifecycleUpdate a _ _ reason _ => [a.assetId, reason]
  | .recentAudit id _ => id.toList
  | .getAsset id => [id]
  | .queryAssets q => q.space.toList ++ q.partitionId.toList ++ q.pathPrefix.toList
  | .setAssetTtl id _ caller => [id, caller]
  | .auditEvents => []

end AssetStore.Postgres
