import AssetStore.Models
import Mathlib.Data.Char
import Mathlib.Data.List.Lex
import Mathlib.Data.Prod.Lex

/-! The in-memory asset registry. An operation runs in a session: the registry together with the
clock readings that are still to come. It returns a value or raises an error, and either way it
leaves the state that it had reached. -/

namespace AssetStore

open Lib

/-- The tables of `InMemoryAssetRegistry`. -/
structure Registry where
  assets : Dict Text Asset := .empty
  aliases : Dict Text AliasBinding := .empty
  auditEvents : List AuditEvent := []
  tombstones : Dict Text Time := .empty
  partitionQuotas : Dict (Text × Text) PartitionQuota := .empty
  bucketQuotas : Dict Text BucketQuota := .empty
  aliasGrace : Int := 7 * 86400 * 1000000

/-- The registry before the first call. -/
def Registry.initial (grace : Int) : Registry := { aliasGrace := grace }

/-- The registry and the clock readings still to come. -/
structure Session where
  reg : Registry
  clock : Nat → Time

/-- A registry operation. -/
abbrev RegM := EStateM Err Session

/-! ### Primitives -/

/-- Takes the next clock reading. -/
def utcnow : RegM Time := fun s => .ok (s.clock 0) { s with clock := fun n => s.clock (n + 1) }

/-- The current tables. -/
def tables : RegM Registry := fun s => .ok s.reg s

def updateTables (f : Registry → Registry) : RegM Unit := fun s => .ok () { s with reg := f s.reg }

/-- `self._assets[asset_id] = asset`. -/
def putAsset (assetId : Text) (a : Asset) : RegM Unit :=
  updateTables fun r => { r with assets := r.assets.set assetId a }

/-- `self._aliases[key] = binding`. -/
def putBinding (key : Text) (b : AliasBinding) : RegM Unit :=
  updateTables fun r => { r with aliases := r.aliases.set key b }

/-- `_audit`. -/
def audit (action : AuditAction) (target callerServiceId : Text)
    (before after : List (Text × Text)) (outcome : Text := "success".toList) : RegM Unit := do
  let ts ← utcnow
  updateTables fun r =>
    { r with
      auditEvents := r.auditEvents ++
        [{ action, target, callerServiceId, outcome, before := mapping before
           after := mapping after, ts }] }

/-- `_get_asset`. -/
def getAsset (assetId : Text) : RegM Asset := do
  let r ← tables
  attempt (someOr (r.assets.get assetId)
    { cls := .assetNotFound, message := "%s", args := [assetId] })

/-- `_get_binding`. -/
def getBinding (space aliasName : Text) : RegM AliasBinding := do
  let normSpace ← attempt (normalizeSpace space)
  let normAlias ← attempt (normalizeRelativeAlias aliasName)
  let key ← attempt (qualifiedAlias normSpace normAlias)
  let r ← tables
  attempt (someOr (r.aliases.get key) { cls := .aliasNotFound, message := "%s", args := [key] })

/-! ### Quotas -/

/-- The stored or default counters under a normalized key. -/
def Registry.partitionAt (r : Registry) (space partitionId : Text) : PartitionQuota :=
  (r.partitionQuotas.get (space, partitionId)).getD (defaultPartition space partitionId)

def Registry.bucketAt (r : Registry) (space : Text) : BucketQuota :=
  (r.bucketQuotas.get space).getD { space }

/-- `_partition_quota`. -/
def partitionQuota (space partitionId : Text) : RegM PartitionQuota := do
  let normSpace ← attempt (normalizeSpace space)
  let normPartition ← attempt (normalizePartitionId partitionId)
  return (← tables).partitionAt normSpace normPartition

/-- `_bucket_quota`. -/
def bucketQuota (space : Text) : RegM BucketQuota := do
  let normSpace ← attempt (normalizeSpace space)
  return (← tables).bucketAt normSpace

/-- The sized uploads of a space that are still pending, except `exclude`. -/
def Registry.sizedPending (r : Registry) (space : Text) (exclude : Option Text) : List Asset :=
  r.assets.values.filter fun a =>
    a.space = space ∧ a.state = .pending ∧ a.reservedBytes ≠ none ∧ exclude ≠ some a.assetId

/-- The unpurged bytes of a space, except those of `exclude`. -/
def Registry.physicalBytes (r : Registry) (space : Text) (exclude : Option Text) : Int :=
  ((r.assets.values.filter fun a =>
    a.space = space ∧ a.payloadDeletedAt = none ∧ exclude ≠ some a.assetId).map fun a =>
      a.physicalBytes).sum

/-- `sum(a.reserved_bytes or 0 for a in assets)`. -/
def sumReserved (assets : List Asset) : Int := (assets.map fun a => a.reservedBytes.getD 0).sum

/-- `_enforce_quota`: rejects a prospective commit that would breach a ceiling. -/
def enforceQuota (env : Env) (space partitionId : Text) (newBytes : Int)
    (exclude : Option Text := none) : RegM Unit := do
  let r ← tables
  let pending := r.sizedPending space exclude
  let partitionPending := pending.filter fun a => a.partitionId = partitionId
  let pq ← partitionQuota space partitionId
  attempt (raiseIf (∃ q ∈ pq.quotaBytes,
      (q : Rat) * partitionHardRatio ≤ (pq.usedBytes + sumReserved partitionPending +
        newBytes : Int))
    { cls := .quotaExceeded .partition, message := "partition quota exceeded for %s/%s"
      args := [pq.space, pq.partitionId] })
  attempt (raiseIf (∃ q ∈ pq.quotaAssetCount,
      q < pq.usedAssetCount + partitionPending.length + 1)
    { cls := .quotaExceeded .partition, message := "partition asset-count quota exceeded for %s/%s"
      args := [pq.space, pq.partitionId] })
  let limits ← attempt (capacityLimits env)
  attempt (if (limits.lookup space).isSome then
      enforceCapacity env space (r.physicalBytes space exclude + newBytes)
    else pure ())
  let bq ← bucketQuota space
  attempt (raiseIf (∃ q ∈ bq.quotaBytes,
      (q : Rat) * bq.hardCeiling ≤ (bq.usedBytes + sumReserved pending + newBytes : Int))
    { cls := .quotaExceeded .bucket, message := "bucket quota exceeded for %s"
      args := [bq.space] })

def putPartitionQuota (q : PartitionQuota) : RegM Unit :=
  updateTables fun r =>
    { r with partitionQuotas := r.partitionQuotas.set (q.space, q.partitionId) q }

def putBucketQuota (q : BucketQuota) : RegM Unit :=
  updateTables fun r => { r with bucketQuotas := r.bucketQuotas.set q.space q }

/-- `_acquire_quota`. -/
def acquireQuota (space partitionId : Text) (nbytes : Int) : RegM Unit := do
  let pq ← partitionQuota space partitionId
  putPartitionQuota
    { pq with usedBytes := pq.usedBytes + nbytes, usedAssetCount := pq.usedAssetCount + 1 }
  let bq ← bucketQuota space
  putBucketQuota { bq with usedBytes := bq.usedBytes + nbytes }

/-- `_release_quota`: nothing to release unless the asset was available. -/
def releaseQuota (a : Asset) : RegM Unit :=
  if a.state = .available then do
    let nbytes := a.sizeBytes.getD 0
    let pq ← partitionQuota a.space a.partitionId
    putPartitionQuota
      { pq with
        usedBytes := max 0 (pq.usedBytes - nbytes)
        usedAssetCount := max 0 (pq.usedAssetCount - 1) }
    let bq ← bucketQuota a.space
    putBucketQuota { bq with usedBytes := max 0 (bq.usedBytes - nbytes) }
  else pure ()

/-! ### Alias names -/

/-- `_alias_name_is_blocked`: bound, or within its grace period; an elapsed tombstone is dropped. -/
def aliasNameIsBlocked (normSpace aliasName : Text) : RegM Bool := do
  let key ← attempt (qualifiedAlias normSpace aliasName)
  let r ← tables
  if (r.aliases.get key).isSome then pure true
  else
    match r.tombstones.get key with
    | none => pure false
    | some graceUntil => do
      let now ← utcnow
      if graceUntil ≤ now then do
        updateTables fun r => { r with tombstones := r.tombstones.erase key }
        pure false
      else pure true

def requireAliasNameAvailable (normSpace aliasName : Text) : RegM Unit := do
  let blocked ← aliasNameIsBlocked normSpace aliasName
  if blocked then do
    let key ← attempt (qualifiedAlias normSpace aliasName)
    attempt (.error
      { cls := .aliasConflict, message := "alias %r already exists or is within grace period"
        args := [key] })
  else pure ()

/-- The names of a reservation, one after the other. -/
def requireNamesAvailable (normSpace normPartition : Text) : List Text → RegM Unit
  | [] => pure ()
  | name :: rest => do
    let scopedName ← attempt (aliasUnderPartition normPartition name)
    requireAliasNameAvailable normSpace scopedName
    requireNamesAvailable normSpace normPartition rest

/-- `_add_alias_to_asset`. -/
def addAliasToAsset (assetId key : Text) : RegM Unit := do
  let a ← getAsset assetId
  let now ← utcnow
  putAsset assetId { a with aliases := insert key a.aliases, updatedAt := now }

/-- `_remove_alias_from_asset`. -/
def removeAliasFromAsset (assetId key : Text) : RegM Unit := do
  let a ← getAsset assetId
  let now ← utcnow
  putAsset assetId { a with aliases := a.aliases.erase key, updatedAt := now }

/-- `_mark_for_gc_if_orphaned`: an asset without aliases expires. -/
def markForGcIfOrphaned (assetId callerServiceId : Text) : RegM Unit := do
  let a ← getAsset assetId
  if a.aliases ≠ ∅ ∨ a.state = .expired ∨ a.state = .deleted then pure ()
  else do
    let updatedAt ← utcnow
    let expiredAt ← utcnow
    putAsset assetId { a with state := .expired, updatedAt, expiredAt := some expiredAt }
    releaseQuota a
    audit .gcMark assetId callerServiceId
      [("state".toList, a.state.value), ("reason".toList, "zero_aliases".toList)]
      [("state".toList, AssetState.expired.value)]

/-! ### Public operations -/

/-- `record_capability_issue`. -/
def recordCapabilityIssue (env : Env) (callerServiceId operation scopePrefix : Text)
    (ttlSeconds : Int) (outcome : Text) (capabilityId : Option Text := none) : RegM Unit :=
  audit .capabilityIssue scopePrefix callerServiceId []
    ([("operation".toList, operation), ("ttl_seconds".toList, showInt ttlSeconds)] ++
      capabilityId.toList.map fun id => ("capability_fingerprint".toList, env.sha256Hex (utf8 id)))
    outcome

/-- The requested names of a reservation with their mutability, as a mapping would hold them. -/
abbrev AliasSpecs := List (Text × Bool)

/-- `_normalize_alias_specs`: a later spelling of the same name takes the earlier one's place. -/
def normalizeAliasSpecs : AliasSpecs → Except Err (Dict Text Bool) :=
  List.foldlM (fun d spec => do
    let name ← normalizeRelativeAlias spec.1
    return d.set name spec.2) .empty

/-- What a reservation asks for. -/
structure ReserveRequest where
  space : Text
  partitionId : Text
  aliases : AliasSpecs
  ownerServiceId : Text
  mime : Option Text := none
  annotations : Mapping := ∅
  evictionPolicy : EvictionPolicy := .inherit
  ttlSeconds : Option Int := none
  reservedBytes : Option Int := none

/-- The key `qualified_alias(space, _alias_under_partition(partition, name))`. -/
def scopedKey (normSpace normPartition name : Text) : Except Err Text := do
  let scopedName ← aliasUnderPartition normPartition name
  qualifiedAlias normSpace scopedName

/-- Binds the names of a reservation, each with its audit event. -/
def bindNames (normSpace normPartition assetId ownerServiceId : Text) (now : Time) :
    List (Text × Bool) → RegM Unit
  | [] => pure ()
  | (name, mutable) :: rest => do
    let scopedName ← attempt (aliasUnderPartition normPartition name)
    let binding : AliasBinding :=
      { space := normSpace, aliasName := scopedName, assetId := some assetId, mutable
        previousAssetId := none, createdAt := now, updatedAt := now
        createdByServiceId := ownerServiceId }
    let key ← attempt binding.qualifiedAlias
    putBinding key binding
    audit .aliasCreate key ownerServiceId []
      [("asset_id".toList, assetId), ("mutable".toList, showLower mutable)]
    bindNames normSpace normPartition assetId ownerServiceId now rest

/-- A sized reservation counts against the quotas at once. -/
def admitReservation (env : Env) (normSpace normPartition : Text) : Option Int → RegM Unit
  | none => pure ()
  | some n => do
    attempt (raiseIf (n < 0)
      { cls := .validation, message := "reserved_bytes must be a nonnegative integer" })
    enforceQuota env normSpace normPartition n

def auditReservation (assetId ownerServiceId : Text) : Option Int → RegM Unit
  | none => pure ()
  | some n => audit .uploadReserve assetId ownerServiceId [] [("reserved_bytes".toList, showInt n)]

/-- `reserve_asset`: reserves the aliases and creates a pending asset with the id `newId`. -/
def reserveAsset (env : Env) (newId : Text) (req : ReserveRequest) : RegM Asset := do
  let normSpace ← attempt (normalizeSpace req.space)
  let normPartition ← attempt (normalizePartitionId req.partitionId)
  let specs ← attempt (normalizeAliasSpecs req.aliases)
  requireNamesAvailable normSpace normPartition specs.keys
  admitReservation env normSpace normPartition req.reservedBytes
  let now ← utcnow
  let keys ← attempt (specs.keys.mapM (scopedKey normSpace normPartition))
  let storageKey ← attempt (buildStorageKey normPartition newId)
  let expiresAt ← attempt (expiryFor env normSpace req.ttlSeconds now)
  let asset : Asset :=
    { assetId := newId, space := normSpace, partitionId := normPartition, storageKey
      state := .pending, reservedBytes := req.reservedBytes, aliases := keys.toFinset
      mime := req.mime, annotations := req.annotations, createdAt := now, updatedAt := now
      ownerServiceId := req.ownerServiceId, evictionPolicy := req.evictionPolicy, expiresAt }
  putAsset newId asset
  bindNames normSpace normPartition newId req.ownerServiceId now
    (specs.keys.map fun name => (name, (specs.get name).getD false))
  auditReservation newId req.ownerServiceId req.reservedBytes
  return asset

/-- `attach_alias`. -/
def attachAlias (assetId aliasName : Text) (mutable : Bool) (callerServiceId : Text) :
    RegM AliasBinding := do
  let a ← getAsset assetId
  attempt (raiseIf (a.state = .deleted)
    { cls := .invalidStateTransition, message := "cannot attach alias to deleted asset %r"
      args := [assetId] })
  let normSpace ← attempt (normalizeSpace a.space)
  let scopedName ← attempt (aliasUnderPartition a.partitionId aliasName)
  requireAliasNameAvailable normSpace scopedName
  let key ← attempt (qualifiedAlias normSpace scopedName)
  let now ← utcnow
  let binding : AliasBinding :=
    { space := normSpace, aliasName := scopedName, assetId := some assetId, mutable
      previousAssetId := none, createdAt := now, updatedAt := now
      createdByServiceId := callerServiceId }
  putBinding key binding
  addAliasToAsset assetId key
  audit .aliasAttach key callerServiceId []
    [("asset_id".toList, assetId), ("mutable".toList, showLower mutable)]
  return binding

/-- `commit_asset`: pending becomes available. -/
def commitAsset (env : Env) (assetId : Text) (sizeBytes : Int) (checksum callerServiceId : Text)
    (mime expectedChecksum : Option Text := none) : RegM Asset := do
  attempt (raiseIf (sizeBytes < 0) { cls := .validation, message := "size_bytes must be >= 0" })
  let serverChecksum := stripSpace checksum
  attempt (raiseIf (serverChecksum = [])
    { cls := .validation, message := "checksum must be non-empty" })
  attempt (raiseIf (∃ expected ∈ expectedChecksum, expected ≠ serverChecksum)
    { cls := .checksumMismatch, message := "checksum mismatch: expected %r, got %r"
      args := expectedChecksum.toList ++ [serverChecksum] })
  let a ← getAsset assetId
  attempt (raiseIf (a.state ≠ .pending)
    { cls := .invalidStateTransition, message := "asset %r cannot be committed from state %r"
      args := [assetId, a.state.value] })
  attempt (raiseIf (∃ n ∈ a.reservedBytes, n ≠ sizeBytes)
    { cls := .validation, message := "committed size must match upload reservation" })
  enforceQuota env a.space a.partitionId sizeBytes (some assetId)
  let now ← utcnow
  let updated :=
    { a with
      state := .available, sizeBytes := some sizeBytes, reservedBytes := none
      checksum := some serverChecksum, updatedAt := now
      mime := if ∃ m ∈ mime, m ≠ [] then mime else a.mime }
  putAsset assetId updated
  acquireQuota a.space a.partitionId sizeBytes
  audit .assetCommit assetId callerServiceId [("state".toList, a.state.value)]
    [("state".toList, updated.state.value)]
  return updated

/-- `update_annotations`: merges or replaces the annotation map. -/
def updateAnnotations (assetId : Text) (patch : Mapping) (callerServiceId : Text)
    (overwrite : Bool := false) : RegM Asset := do
  let a ← getAsset assetId
  attempt (raiseIf (a.state = .deleted)
    { cls := .invalidStateTransition, message := "cannot update annotations on deleted asset %r"
      args := [assetId] })
  let merged := if overwrite then patch else patch ∪ a.annotations
  let now ← utcnow
  let updated := { a with annotations := merged, updatedAt := now }
  putAsset assetId updated
  let ts ← utcnow
  updateTables fun r =>
    { r with
      auditEvents := r.auditEvents ++
        [{ action := .annotationsUpdate, target := assetId, callerServiceId
           outcome := "success".toList, before := a.annotations, after := merged, ts }] }
  return updated

/-- Raises an error that names the binding's key when `c` holds. -/
def raiseNaming (c : Prop) [Decidable c] (b : AliasBinding) (cls : ErrorClass) (message : String) :
    Except Err Unit :=
  if c then do
    let key ← b.qualifiedAlias
    .error { cls, message, args := [key] }
  else .ok ()

/-- `resolve_alias`: the available asset an alias is bound to. -/
def resolveAlias (space aliasName : Text) : RegM Asset := do
  let binding ← getBinding space aliasName
  attempt (raiseNaming (binding.assetId = none) binding .invalidStateTransition
    "alias %r is detached pending rebind")
  let a ← getAsset (binding.assetId.getD [])
  let now ← utcnow
  attempt (requireLive a now)
  attempt (raiseIf (a.isResolvable = false)
    { cls := .invalidStateTransition, message := "asset %r is not resolvable in state %r"
      args := [a.assetId, a.state.value] })
  return a

/-- Blocks the name of a detached alias for the grace period, whose end must be a `datetime`. -/
def buryName (key : Text) : RegM Unit := do
  let r ← tables
  if 0 < r.aliasGrace then do
    let now ← utcnow
    attempt (raiseIf (maxTime < now + r.aliasGrace)
      { cls := .overflowError, message := "date value out of range" })
    updateTables fun r => { r with tombstones := r.tombstones.set key (now + r.aliasGrace) }
  else pure ()

/-- `detach_alias`: drops an immutable binding and blocks its name for the grace period. -/
def detachAlias (space aliasName callerServiceId : Text) : RegM Unit := do
  let binding ← getBinding space aliasName
  attempt (raiseNaming (binding.mutable = true) binding .aliasImmutable
    "use detach_mutable_alias for mutable alias %r")
  let key ← attempt binding.qualifiedAlias
  let assetId ← attempt (someOr binding.assetId
    { cls := .invalidStateTransition, message := "alias %r is not bound", args := [key] })
  updateTables fun r => { r with aliases := r.aliases.erase key }
  removeAliasFromAsset assetId key
  buryName key
  audit .aliasDetach key callerServiceId [("asset_id".toList, assetId)] []
  markForGcIfOrphaned assetId callerServiceId

/-- `detach_mutable_alias`: unbinds a mutable alias until it is rebound. -/
def detachMutableAlias (space aliasName callerServiceId : Text) : RegM AliasBinding := do
  let binding ← getBinding space aliasName
  attempt (raiseNaming (binding.mutable = false) binding .aliasImmutable
    "use detach_alias for immutable alias %r")
  let key ← attempt binding.qualifiedAlias
  let oldAssetId ← attempt (someOr binding.assetId
    { cls := .invalidStateTransition, message := "mutable alias %r is already detached"
      args := [key] })
  removeAliasFromAsset oldAssetId key
  let now ← utcnow
  let updated :=
    { binding with assetId := none, previousAssetId := some oldAssetId, updatedAt := now }
  putBinding key updated
  audit .aliasDetachMutable key callerServiceId [("asset_id".toList, oldAssetId)]
    [("asset_id".toList, [])]
  markForGcIfOrphaned oldAssetId callerServiceId
  return updated

/-- `rebind_alias`: binds a detached mutable alias to an available asset of its partition. -/
def rebindAlias (space aliasName newAssetId callerServiceId : Text) : RegM AliasBinding := do
  let binding ← getBinding space aliasName
  attempt (raiseNaming (binding.mutable = false) binding .aliasImmutable "alias %r is immutable")
  attempt (raiseNaming (binding.assetId ≠ none) binding .invalidStateTransition
    "mutable alias %r must be detached before rebind")
  let newAsset ← getAsset newAssetId
  attempt (raiseIf (newAsset.space ≠ binding.space)
    { cls := .aliasConflict, message := "cannot rebind an alias across buckets" })
  let partition ← attempt (partitionFromScopedAlias binding.aliasName)
  attempt (raiseIf (newAsset.partitionId ≠ partition)
    { cls := .aliasConflict, message := "cannot rebind an alias across partitions" })
  attempt (raiseIf (newAsset.state ≠ .available)
    { cls := .invalidStateTransition, message := "rebind target asset %r must be available, got %r"
      args := [newAssetId, newAsset.state.value] })
  let key ← attempt binding.qualifiedAlias
  let now ← utcnow
  let updated :=
    { binding with assetId := some newAssetId, previousAssetId := none, updatedAt := now }
  putBinding key updated
  addAliasToAsset newAssetId key
  audit .aliasRebind key callerServiceId
    [("asset_id".toList, binding.previousAssetId.getD [])] [("asset_id".toList, newAssetId)]
  return updated

/-- `expire_asset`: available becomes expired. -/
def expireAsset (assetId callerServiceId : Text) : RegM Asset := do
  let a ← getAsset assetId
  attempt (raiseIf (a.state ≠ .available)
    { cls := .invalidStateTransition, message := "asset %r cannot expire from state %r"
      args := [assetId, a.state.value] })
  let updatedAt ← utcnow
  let expiredAt ← utcnow
  let updated := { a with state := .expired, updatedAt, expiredAt := some expiredAt }
  putAsset assetId updated
  releaseQuota a
  audit .assetExpire assetId callerServiceId [("state".toList, a.state.value)]
    [("state".toList, updated.state.value)]
  return updated

/-- `delete_asset`: available or expired becomes deleted. -/
def deleteAsset (assetId callerServiceId : Text) : RegM Asset := do
  let a ← getAsset assetId
  attempt (raiseIf (a.state ≠ .available ∧ a.state ≠ .expired)
    { cls := .invalidStateTransition, message := "asset %r cannot be deleted from state %r"
      args := [assetId, a.state.value] })
  let updatedAt ← utcnow
  let updated := { a with state := .deleted, updatedAt }
  putAsset assetId updated
  releaseQuota a
  audit .assetDelete assetId callerServiceId [("state".toList, a.state.value)]
    [("state".toList, updated.state.value)]
  return updated

/-- `set_eviction_policy`. -/
def setEvictionPolicy (assetId : Text) (evictionPolicy : EvictionPolicy) (callerServiceId : Text) :
    RegM Asset := do
  let a ← getAsset assetId
  attempt (raiseIf (a.state = .deleted)
    { cls := .invalidStateTransition, message := "cannot set eviction policy on deleted asset %r"
      args := [assetId] })
  let updatedAt ← utcnow
  let updated := { a with evictionPolicy, updatedAt }
  putAsset assetId updated
  audit .evictionPolicySet assetId callerServiceId
    [("eviction_policy".toList, a.evictionPolicy.value)]
    [("eviction_policy".toList, evictionPolicy.value)]
  return updated

/-- `set_partition_quota`: sets the limits and keeps the usage. -/
def setPartitionQuota (space partitionId : Text) (quotaBytes quotaAssetCount : Option Int)
    (evictionSweepEnabled : Option Bool) (callerServiceId : Text := "system".toList) :
    RegM PartitionQuota := do
  attempt (raiseIf (∃ q ∈ quotaBytes, q < 0)
    { cls := .validation, message := "quota_bytes must not be negative" })
  attempt (raiseIf (∃ q ∈ quotaAssetCount, q < 0)
    { cls := .validation, message := "quota_asset_count must not be negative" })
  let current ← partitionQuota space partitionId
  let sweep := evictionSweepEnabled.getD current.evictionSweepEnabled
  let updated := { current with quotaBytes, quotaAssetCount, evictionSweepEnabled := sweep }
  putPartitionQuota updated
  audit .quotaSet (updated.space ++ '/' :: updated.partitionId) callerServiceId
    [("quota_bytes".toList, showOptionInt current.quotaBytes),
     ("quota_asset_count".toList, showOptionInt current.quotaAssetCount),
     ("eviction_sweep_enabled".toList, showBool current.evictionSweepEnabled)]
    [("quota_bytes".toList, showOptionInt quotaBytes),
     ("quota_asset_count".toList, showOptionInt quotaAssetCount),
     ("eviction_sweep_enabled".toList, showBool sweep)]
  return updated

/-- `set_bucket_quota`: sets the limits and keeps the usage. -/
def setBucketQuota (space : Text) (quotaBytes : Option Int) (warnThreshold : Rat := 4 / 5)
    (hardCeiling : Rat := 1) : RegM BucketQuota := do
  attempt (raiseIf (∃ q ∈ quotaBytes, q < 0)
    { cls := .validation, message := "quota_bytes must not be negative" })
  let current ← bucketQuota space
  let updated := { current with quotaBytes, warnThreshold, hardCeiling }
  putBucketQuota updated
  return updated

/-- `reserved_upload_bytes`: the generator normalizes the space once for each asset it meets. -/
def reservedUploadBytes (space : Text) : RegM Int := do
  let r ← tables
  let kept ← attempt (r.assets.values.filterM fun a => do
    let normSpace ← normalizeSpace space
    return decide (a.space = normSpace ∧ a.payloadDeletedAt = none))
  return sumReserved kept

/-- `list_assets`: the assets whose payload is not purged. -/
def listAssets : RegM (List Asset) := do
  let r ← tables
  return r.assets.values.filter fun a => a.payloadDeletedAt = none

/-- `record_read`. -/
def recordRead (assetId : Text) : RegM Unit := do
  let a ← getAsset assetId
  if a.state = .available then do
    let now ← utcnow
    putAsset assetId { a with lastReadAt := some now, readCount := a.readCount + 1 }
  else pure ()

/-- `lifecycle_update`: a maintenance transition of an asset that has not changed since it was
read. -/
def lifecycleUpdate (a : Asset) (state : AssetState) (now : Time) (reason : Text)
    (payloadDeleted : Bool := false) : RegM Asset := do
  let current ← getAsset a.assetId
  attempt (raiseIf (current ≠ a)
    { cls := .invalidStateTransition, message := "lifecycle candidate changed" })
  attempt (validateCleanupTransition a state payloadDeleted)
  let updated :=
    { a with
      state, updatedAt := now
      expiredAt := if state = .expired then some now else a.expiredAt
      payloadDeletedAt := if payloadDeleted then some now else a.payloadDeletedAt }
  releaseQuota a
  putAsset a.assetId updated
  audit (if payloadDeleted then .payloadDelete else if state = .expired then .assetExpire
      else .assetDelete)
    a.assetId "lifecycle-worker".toList [("state".toList, a.state.value)]
    [("state".toList, state.value), ("reason".toList, reason)]
  return updated

/-- `recent_audit`: the last events, or the last that name an asset. -/
def recentAudit (assetId : Option Text := none) (limit : Int := 100) : RegM (List AuditEvent) := do
  attempt (raiseIf (¬(1 ≤ limit ∧ limit ≤ 500))
    { cls := .validation, message := "audit limit must be between 1 and 500" })
  let r ← tables
  let events := r.auditEvents.filter fun e => ∀ id ∈ assetId,
    e.target = id ∨ e.before.lookup "asset_id".toList = some id ∨
      e.after.lookup "asset_id".toList = some id
  return events.drop (events.length - limit.toNat)

/-- The listing order: creation time, then asset id. -/
def listedBefore (a b : Asset) : Bool :=
  decide (toLex (a.createdAt, a.assetId) ≤ toLex (b.createdAt, b.assetId))

/-- Whether an asset comes after the position of a cursor. -/
def isPast (after : Option (Time × Text)) (a : Asset) : Bool :=
  after.all fun p => decide (toLex p < toLex (a.createdAt, a.assetId))

/-- `query_assets`: at most one asset more than the limit of the page. -/
def queryAssets (env : Env) (q : AssetQuery) : RegM (List Asset) := do
  let after ← attempt (q.after env)
  let r ← tables
  let assets := r.assets.values.mergeSort listedBefore
  return (assets.filter fun a => q.accepts a ∧ isPast after a).take (q.limit + 1)

/-- An expired asset counts against the quotas again before it is restored. -/
def admitRestore (env : Env) (a : Asset) : RegM Unit :=
  if a.state = .expired then do
    enforceQuota env a.space a.partitionId (a.sizeBytes.getD 0) (some a.assetId)
    acquireQuota a.space a.partitionId (a.sizeBytes.getD 0)
  else pure ()

/-- `set_asset_ttl`: sets the deadline, and restores an expired asset if the quotas admit it. -/
def setAssetTtl (env : Env) (assetId : Text) (ttlSeconds : Int) (callerServiceId : Text) :
    RegM Asset := do
  let a ← getAsset assetId
  attempt (raiseIf (a.state ≠ .available ∧ a.state ≠ .expired)
    { cls := .invalidStateTransition, message := "TTL requires available or expired asset" })
  attempt (raiseIf (a.sizeBytes = none ∨ a.checksum = none)
    { cls := .invalidStateTransition, message := "cannot restore an uncommitted payload" })
  let now ← utcnow
  let deadline ← attempt (expiryFor env a.space (some ttlSeconds) now)
  admitRestore env a
  let updated :=
    { a with state := .available, expiresAt := deadline, expiredAt := none, updatedAt := now }
  putAsset assetId updated
  audit .ttlSet assetId callerServiceId
    [("expires_at".toList, showOptionTime a.expiresAt), ("state".toList, a.state.value)]
    [("expires_at".toList, showOptionTime deadline), ("state".toList, AssetState.available.value)]
  return updated

/-! ### The interface -/

/-- A call of an operation of `AssetRegistry`. A reservation comes with the id that is generated
for it. -/
inductive Op
  | recordCapabilityIssue (callerServiceId operation scopePrefix : Text) (ttlSeconds : Int)
      (outcome : Text) (capabilityId : Option Text)
  | reserveAsset (newId : Text) (req : ReserveRequest)
  | attachAlias (assetId aliasName : Text) (mutable : Bool) (callerServiceId : Text)
  | commitAsset (assetId : Text) (sizeBytes : Int) (checksum callerServiceId : Text)
      (mime expectedChecksum : Option Text)
  | updateAnnotations (assetId : Text) (patch : Mapping) (callerServiceId : Text) (overwrite : Bool)
  | resolveAlias (space aliasName : Text)
  | detachAlias (space aliasName callerServiceId : Text)
  | detachMutableAlias (space aliasName callerServiceId : Text)
  | rebindAlias (space aliasName newAssetId callerServiceId : Text)
  | expireAsset (assetId callerServiceId : Text)
  | deleteAsset (assetId callerServiceId : Text)
  | setEvictionPolicy (assetId : Text) (evictionPolicy : EvictionPolicy) (callerServiceId : Text)
  | setPartitionQuota (space partitionId : Text) (quotaBytes quotaAssetCount : Option Int)
      (evictionSweepEnabled : Option Bool) (callerServiceId : Text)
  | setBucketQuota (space : Text) (quotaBytes : Option Int) (warnThreshold hardCeiling : Rat)
  | getPartitionQuota (space partitionId : Text)
  | getBucketQuota (space : Text)
  | reservedUploadBytes (space : Text)
  | listAssets
  | recordRead (assetId : Text)
  | lifecycleUpdate (asset : Asset) (state : AssetState) (now : Time) (reason : Text)
      (payloadDeleted : Bool)
  | recentAudit (assetId : Option Text) (limit : Int)
  | getAsset (assetId : Text)
  | queryAssets (query : AssetQuery)
  | setAssetTtl (assetId : Text) (ttlSeconds : Int) (callerServiceId : Text)
  | auditEvents

/-- What a call returns. -/
inductive Reply
  | none
  | asset (a : Asset)
  | binding (b : AliasBinding)
  | partitionQuota (q : PartitionQuota)
  | bucketQuota (q : BucketQuota)
  | bytes (n : Int)
  | assets (as : List Asset)
  | events (es : List AuditEvent)
  deriving DecidableEq

/-- The call, on the in-memory registry. -/
def Op.run (env : Env) : Op → RegM Reply
  | .recordCapabilityIssue caller operation scopePrefix ttl outcome capabilityId => do
    AssetStore.recordCapabilityIssue env caller operation scopePrefix ttl outcome capabilityId
    return .none
  | .reserveAsset newId req => do return .asset (← AssetStore.reserveAsset env newId req)
  | .attachAlias id name mutable caller => do
    return .binding (← AssetStore.attachAlias id name mutable caller)
  | .commitAsset id size checksum caller mime expected => do
    return .asset (← AssetStore.commitAsset env id size checksum caller mime expected)
  | .updateAnnotations id patch caller overwrite => do
    return .asset (← AssetStore.updateAnnotations id patch caller overwrite)
  | .resolveAlias space name => do return .asset (← AssetStore.resolveAlias space name)
  | .detachAlias space name caller => do
    AssetStore.detachAlias space name caller
    return .none
  | .detachMutableAlias space name caller => do
    return .binding (← AssetStore.detachMutableAlias space name caller)
  | .rebindAlias space name newId caller => do
    return .binding (← AssetStore.rebindAlias space name newId caller)
  | .expireAsset id caller => do return .asset (← AssetStore.expireAsset id caller)
  | .deleteAsset id caller => do return .asset (← AssetStore.deleteAsset id caller)
  | .setEvictionPolicy id policy caller => do
    return .asset (← AssetStore.setEvictionPolicy id policy caller)
  | .setPartitionQuota space pid bytes count sweep caller => do
    return .partitionQuota (← AssetStore.setPartitionQuota space pid bytes count sweep caller)
  | .setBucketQuota space bytes warn hard => do
    return .bucketQuota (← AssetStore.setBucketQuota space bytes warn hard)
  | .getPartitionQuota space pid => do return .partitionQuota (← partitionQuota space pid)
  | .getBucketQuota space => do return .bucketQuota (← bucketQuota space)
  | .reservedUploadBytes space => do return .bytes (← AssetStore.reservedUploadBytes space)
  | .listAssets => do return .assets (← AssetStore.listAssets)
  | .recordRead id => do
    AssetStore.recordRead id
    return .none
  | .lifecycleUpdate a state now reason payloadDeleted => do
    return .asset (← AssetStore.lifecycleUpdate a state now reason payloadDeleted)
  | .recentAudit id limit => do return .events (← AssetStore.recentAudit id limit)
  | .getAsset id => do return .asset (← AssetStore.getAsset id)
  | .queryAssets q => do return .assets (← AssetStore.queryAssets env q)
  | .setAssetTtl id ttl caller => do return .asset (← AssetStore.setAssetTtl env id ttl caller)
  | .auditEvents => do return .events (← tables).auditEvents

/-- The id generated for a reservation is not in use. -/
def Op.Fresh (r : Registry) : Op → Prop
  | .reserveAsset newId _ => r.assets.get newId = none
  | _ => True

/-- The registry after a call, which may have raised. -/
def Op.exec (env : Env) (clock : Nat → Time) (op : Op) (r : Registry) : Registry :=
  (final (op.run env ⟨r, clock⟩)).reg

/-- The calls, each with its clock readings, lead from one registry to the other. -/
inductive Runs (env : Env) : Registry → List (Op × (Nat → Time)) → Registry → Prop
  | nil {r : Registry} : Runs env r [] r
  | snoc {r r' : Registry} {calls : List (Op × (Nat → Time))} {op : Op} {clock : Nat → Time}
      (before : Runs env r calls r') (fresh : op.Fresh r') :
      Runs env r (calls ++ [(op, clock)]) (op.exec env clock r')

end AssetStore
