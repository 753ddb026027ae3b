import AssetStore.Guard

/-! The HTTP front of the asset store: service and capability checks before the registry and the
guard, and the status of each error. Requests that are admitted by rate are modelled. -/

namespace AssetStore

open Lib

/-- `_STATUS_BY_ERROR`. -/
def ErrorClass.status : ErrorClass → Nat
  | .validation => 400
  | .uploadTooLarge => 413
  | .serviceAuth => 401
  | .capabilityDenied => 403
  | .capabilityAlreadyConsumed => 403
  | .capabilityCapacity => 503
  | .capabilityRate _ => 429
  | .workCapacity => 503
  | .aliasNotFound => 404
  | .assetNotFound => 404
  | .assetExpired => 410
  | .assetDeleted => 404
  | .capacityExceeded => 503
  | .registryUnavailable => 503
  | .objectNotFound => 404
  | .aliasConflict => 409
  | .aliasImmutable => 409
  | .checksumMismatch => 409
  | .invalidStateTransition => 409
  | .quotaExceeded _ => 413
  | .presignNotSupported => 501
  | .runtimeError => 500
  | .keyError => 500
  | .overflowError => 500

/-- The limits of the process. -/
structure ApiConfig where
  maxCapabilities : Nat := 10000
  maxUploadBytes : Nat := 50 * 1024 * 1024

/-- The guard with the published capabilities. -/
structure App where
  guard : GuardState
  capabilities : Dict Text Capability

abbrev AppM := EStateM Err App

/-- A call of the guard. -/
def guarded {α : Type} (p : GuardProg α) : AppM α := fun app =>
  match alone p app.guard with
  | .ok a g => .ok a { app with guard := g }
  | .error e g => .error e { app with guard := g }

def updateCapabilities (f : Dict Text Capability → Dict Text Capability) : AppM Unit := fun app =>
  .ok () { app with capabilities := f app.capabilities }

/-- `GET /resolve`. -/
def resolve (caller space aliasName : Text) : AppM Asset := do
  attempt (assertServiceBucketAllowed caller space .read)
  guarded (registry (resolveAlias space aliasName))

/-! ### Raw commits -/

/-- The body of a commit. -/
structure CommitRequest where
  sizeBytes : Int
  checksum : Text
  callerServiceId : Text
  mime : Option Text := none
  expectedChecksum : Option Text := none

/-- The locked block of `POST /assets/{asset_id}/commit`: the request must describe the bytes that
are stored. -/
def commitLocked (env : Env) (caller assetId : Text) (body : CommitRequest) : GuardProg Asset :=
  withAssetLock assetId fun pending => do
    check (assertServiceBucketAllowed caller pending.space .write)
    check (raiseIf (pending.ownerServiceId ≠ caller ∧ caller ≠ "admin".toList)
      { cls := .capabilityDenied, message := "commit requires reservation owner or admin" })
    let location ← check
      (ObjectStoreLocation.forAsset pending.space pending.partitionId pending.assetId)
    let found ← .perform (.statObject env location)
    let stat ← check (someOr found
      { cls := .objectNotFound, message := "reserved payload does not exist" })
    check (raiseIf (body.sizeBytes ≠ stat.sizeBytes ∨ body.checksum ≠ stat.checksum)
      { cls := .checksumMismatch, message := "commit metadata differs from stored payload" })
    return commitAsset env assetId stat.sizeBytes stat.checksum caller body.mime
      body.expectedChecksum

/-- `POST /assets/{asset_id}/commit`. The fill of the bucket is read for the metrics. -/
def commit (env : Env) (caller assetId : Text) (body : CommitRequest) : GuardProg Asset := do
  check (raiseIf (body.callerServiceId ≠ caller)
    { cls := .capabilityDenied, message := "caller must match authenticated service" })
  let asset ← commitLocked env caller assetId body
  let _ ← registry (bucketQuota asset.space)
  return asset

/-! ### Capabilities -/

/-- `CapabilityStore._prune_locked`. -/
def pruneCapabilities (now : Time) (caps : Dict Text Capability) : Dict Text Capability :=
  caps.filter fun cap => now < cap.expiresAt

/-- `Capability(...)`. -/
def Capability.create (capabilityId : Text) (operation : Operation) (scopePrefix : Text)
    (expiresAt : Time) (callerServiceId : Text) (singleUse : Bool) : Except Err Capability :=
  match h : validateScope scopePrefix with
  | .error e => .error e
  | .ok () =>
    .ok { capabilityId, operation, scopePrefix, expiresAt, callerServiceId, singleUse,
          scope_valid := h }

/-- `CapabilityStore.issue`: the grant is audited before it is published. -/
def issueCapability (cfg : ApiConfig) (cap : Capability) (onGrant : AppM Unit) : AppM Unit := do
  let now ← guarded (registry utcnow)
  updateCapabilities (pruneCapabilities now)
  attempt (raiseIf (cap.expiresAt ≤ now)
    { cls := .validation, message := "capability must expire in the future" })
  let app ← get
  attempt (raiseIf (cfg.maxCapabilities ≤ app.capabilities.keys.length)
    { cls := .capabilityCapacity, message := "capability capacity temporarily unavailable" })
  onGrant
  updateCapabilities fun caps => caps.set cap.capabilityId cap

/-- `CapabilityStore.get`, behind `Authorization: Capability`. -/
def requireCapability (token : Text) : AppM Capability := do
  let now ← guarded (registry utcnow)
  updateCapabilities (pruneCapabilities now)
  let app ← get
  attempt (someOr (app.capabilities.get token)
    { cls := .capabilityDenied, message := "unknown capability credential" })

/-- The allowlist check of a mint: a refusal is audited. -/
def requireBucketAllowed (env : Env) (caller bucket : Text) (operation : Operation)
    (scopePrefix : Text) (ttlSeconds : Int) : AppM Unit :=
  match assertServiceBucketAllowed caller bucket operation with
  | .ok () => pure ()
  | .error e => do
    guarded (registry (recordCapabilityIssue env caller operation.value scopePrefix ttlSeconds
      "denied".toList))
    attempt (.error e)

/-- `POST /capabilities`. -/
def mintCapability (cfg : ApiConfig) (env : Env) (capId caller : Text) (operation : Operation)
    (scopePrefix : Text) (ttlSeconds : Int) (singleUse : Bool) : AppM Text := do
  attempt (raiseIf (¬(60 ≤ ttlSeconds ∧ ttlSeconds ≤ 86400))
    { cls := .validation, message := "request body or query parameters failed validation" })
  let bucket ← attempt (normalizeSpace (partitionSlash (stripSlash scopePrefix)).1)
  requireBucketAllowed env caller bucket operation scopePrefix ttlSeconds
  let now ← guarded (registry utcnow)
  let cap ← attempt
    (Capability.create capId operation scopePrefix (now + ttlSeconds * 1000000) caller singleUse)
  guarded pruneConsumedCapabilities
  issueCapability cfg cap (guarded (registry (recordCapabilityIssue env caller operation.value
    scopePrefix ttlSeconds "granted".toList (some cap.capabilityId))))
  return cap.capabilityId

/-- `PUT /objects/{alias}`. -/
def putObject (cfg : ApiConfig) (env : Env) (newId token aliasName : Text) (data : List UInt8)
    (mime : Option Text) : AppM Asset := do
  let cap ← requireCapability token
  guarded (authorizeWrite cap aliasName)
  attempt (raiseIf (cfg.maxUploadBytes < data.length)
    { cls := .uploadTooLarge, message := "proxy upload exceeds configured byte limit" })
  guarded (writeObject env newId cap aliasName data { mime })

end AssetStore
