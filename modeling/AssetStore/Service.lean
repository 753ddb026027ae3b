import AssetStore.Admin.Actions
import AssetStore.Capability.Store
import AssetStore.Guard.Locking
import AssetStore.Guard.Presign
import AssetStore.Identity
import AssetStore.IssuanceRate
import AssetStore.Lib.Contracts

/-! The HTTP service over the transactional registry. Its requests share the guard, the bearer store
and the rate limiter, and they interleave at every statement. Each endpoint authenticates its caller
first; the bodies of requests are those that pass their schema. -/

namespace AssetStore

open Lib

variable {ι β : Type} [DecidableEq ι]

/-! ### What requests share -/

/-- The state of one process of the service. -/
structure Service (ι : Type) where
  shared : Shared ι
  bearers : CapabilityStore
  issuance : IssuanceRateLimiter
  monotonic : Nat → Rat

/-- The statements of a request: those of the guard, and the calls of the bearer store and of the
rate limiter, each under the lock of its object. -/
inductive ServiceCmd : Type → Type 1
  | guard {β : Type} (c : Cmd β) : ServiceCmd β
  | getCapability (token : Text) : ServiceCmd (Option Capability)
  | countCapabilities : ServiceCmd Nat
  | issueCapability (cap : Capability) (onGrant : RegM Unit) : ServiceCmd Unit
  | admitIssuance (identity : Text) : ServiceCmd Unit

/-- The audit of a grant, in a transaction that waits for no lock. -/
def auditGrant (onGrant : RegM Unit) : EStateM Err (Shared ι) Unit := fun sh =>
  match onGrant ⟨sh.reg, sh.clock⟩ with
  | .ok () t => .ok () { sh with reg := t.reg, clock := t.clock }
  | .error e t => .error e { sh with clock := t.clock }

/-- A call of the bearer store at the next clock reading. -/
def Service.callBearers (s : Service ι) (call : Time → StoreM (Shared ι) β) :
    Except Err β × Service ι :=
  match call (s.shared.clock 0) (s.bearers,
    { s.shared with clock := fun n => s.shared.clock (n + 1) }) with
  | .ok b (bearers, shared) => (.ok b, { s with bearers, shared })
  | .error e (bearers, shared) => (.error e, { s with bearers, shared })

/-- A call of the rate limiter at the next reading of the monotonic clock. -/
def Service.admitIssuance (s : Service ι) (identity : Text) : Except Err Unit × Service ι :=
  let (outcome, issuance) := s.issuance.admitCall identity (s.monotonic 0)
  (outcome, { s with issuance, monotonic := fun n => s.monotonic (n + 1) })

/-- A statement of thread `i`; it is blocked while it waits for a lock of the registry. -/
def ServiceCmd.exec (i : ι) :
    (β : Type) → ServiceCmd β → Service ι → Option (Except Err β × Service ι)
  | _, .guard c, s => (Cmd.exec i _ c s.shared).map fun out => (out.1, { s with shared := out.2 })
  | _, .getCapability token, s => some (s.callBearers fun now => CapabilityStore.get now token)
  | _, .countCapabilities, s => some (s.callBearers CapabilityStore.len)
  | _, .issueCapability cap onGrant, s =>
    some (s.callBearers fun now => CapabilityStore.issue now cap (auditGrant onGrant))
  | _, .admitIssuance identity, s => some (s.admitIssuance identity)

/-- Requests that interleave at every statement. -/
def serving (ι : Type) [DecidableEq ι] : Machine ServiceCmd Err (Service ι) ι where
  exec := fun i c s => ServiceCmd.exec i _ c s
  leave := fun i s => { s with shared := (locking ι).leave i s.shared }

/-- The handling of a request. -/
abbrev ServiceProg := Prog ServiceCmd Err

def callGuard {α : Type} (p : GuardProg α) : ServiceProg α := p.hoist .guard

def callRegistry {α : Type} (m : RegM α) : ServiceProg α := .perform (.guard (.registry m))

/-! ### Bodies (`api/schemas.py`) -/

/-- The body of `POST /assets`. -/
structure ReserveBody where
  space : Text
  partitionId : Text
  aliases : AliasSpecs
  ownerServiceId : Text
  mime : Option Text := none
  annotations : Option Mapping := none
  evictionPolicy : EvictionPolicy := .inherit
  ttlSeconds : Option Int := none
  aliases_nonempty : aliases ≠ []
  ttl_pos : ∀ seconds ∈ ttlSeconds, 0 < seconds := by simp

/-- The mapping of the alias entries of a body, as the list of its items. -/
def aliasItems (specs : AliasSpecs) : AliasSpecs :=
  let items := specs.foldl (fun (d : Dict Text Bool) spec => d.set spec.1 spec.2) .empty
  items.keys.map fun name => (name, (items.get name).getD false)

structure AnnotationsUpdateRequest where
  patch : Mapping
  callerServiceId : Text
  overwrite : Bool := false

structure PartitionQuotaRequest where
  space : Text
  partitionId : Text
  quotaBytes : Option Int := none
  quotaAssetCount : Option Int := none
  evictionSweepEnabled : Option Bool := none
  bytes_nonneg : ∀ n ∈ quotaBytes, 0 ≤ n := by simp
  count_nonneg : ∀ n ∈ quotaAssetCount, 0 ≤ n := by simp

structure BucketQuotaRequest where
  space : Text
  quotaBytes : Option Int := none
  warnThreshold : Rat := 4 / 5
  hardCeiling : Rat := 1
  bytes_nonneg : ∀ n ∈ quotaBytes, 0 ≤ n := by simp
  warn_bounds : 0 ≤ warnThreshold ∧ warnThreshold ≤ 1
  ceiling_bounds : 0 ≤ hardCeiling ∧ hardCeiling ≤ 2

/-- The body of `POST /capabilities`. -/
structure CapabilityMintRequest where
  operation : Operation
  scopePrefix : Text
  ttlSeconds : Int
  singleUse : Bool := false
  ttl_bounds : 60 ≤ ttlSeconds ∧ ttlSeconds ≤ 86400

/-- The query of `GET /audit`. -/
structure AuditFilter where
  action : Option Text := none
  target : Option Text := none
  callerServiceId : Option Text := none
  limit : Nat := 100
  limit_bounds : 1 ≤ limit ∧ limit ≤ 1000 := by decide

/-- `PUT /objects/{alias}` with what arrives of its body. A declared size is `none` when it is not
an integer. -/
structure Upload where
  aliasName : Text
  declaredSize : Option (Option Int) := none
  chunks : List (List UInt8)
  contentType : Option Text := none
  mutable : Bool := false
  expectedChecksum : Option Text := none
  ttlSeconds : Option Int := none
  ttl_pos : ∀ seconds ∈ ttlSeconds, 0 < seconds := by simp

/-- The name of an action in the audit log. -/
def AuditAction.value : AuditAction → Text
  | .capabilityIssue => "capability.issue".toList
  | .aliasCreate => "alias.create".toList
  | .uploadReserve => "asset.upload_reserve".toList
  | .aliasAttach => "alias.attach".toList
  | .assetCommit => "asset.commit".toList
  | .annotationsUpdate => "asset.annotations_update".toList
  | .aliasDetach => "alias.detach".toList
  | .aliasDetachMutable => "alias.detach_mutable".toList
  | .aliasRebind => "alias.rebind".toList
  | .assetExpire => "asset.expire".toList
  | .assetDelete => "asset.delete".toList
  | .evictionPolicySet => "asset.eviction_policy_set".toList
  | .quotaSet => "admin.quota_set".toList
  | .payloadDelete => "asset.payload_delete".toList
  | .gcMark => "asset.gc_mark".toList
  | .ttlSet => "admin.ttl_set".toList

/-- The gauges of the metrics that are computed when they are scraped. -/
structure Gauges where
  activeCapabilities : Nat
  reservedUploadBytes : List (Text × Option Int)

/-- The files of the console that `static_file` serves. -/
inductive StaticFile
  | script
  | style

def StaticFile.filename : StaticFile → Text
  | .script => "admin.js".toList
  | .style => "admin.css".toList

/-! ### Endpoints (`api/app.py`, `api/admin.py`) -/

/-- What a process is configured with. -/
structure ServiceConfig where
  env : Env
  credentials : ServiceCredentialStore
  maxUploadBytes : Int := 50 * 1024 * 1024
  presignGetUrl : ObjectStoreLocation → Int → Except Err Text

namespace Endpoint

section Handlers

variable (cfg : ServiceConfig) (authorization : Text)

/-- `require_capability`. -/
def requireCapability : ServiceProg Capability := do
  let token ← .ret (bearerToken authorization)
  let found ← .perform (.getCapability token)
  .ret (someOr found { cls := .capabilityDenied, message := "unknown capability credential" })

/-- A route that depends on `require_legacy_admin`. -/
def legacyAdmin {α : Type} (claimed : Option Text) (route : ServiceProg α) : ServiceProg α := do
  let _ ← .ret (requireLegacyAdmin cfg.credentials authorization claimed)
  route

/-- A route of the console, behind `require_admin`. -/
def console {α : Type} (route : ServiceProg α) : ServiceProg α := do
  let _ ← .ret (requireAdmin cfg.credentials authorization)
  route

/-- `metric_reserved_upload_bytes`: there is no sample while the registry is unavailable. -/
def metricReservedUploadBytes (space : Text) : ServiceProg (Option Int) :=
  Prog.tryCatch (do return some (← callRegistry (reservedUploadBytes space))) fun e =>
    if e.cls = .registryUnavailable then return none else .ret (.error e)

/-- The samples of the gauge `asset_store_reserved_upload_bytes`. -/
def reservedSamples : List Text → ServiceProg (List (Text × Option Int))
  | [] => return []
  | space :: spaces => do
    let bytes ← metricReservedUploadBytes space
    let rest ← reservedSamples spaces
    return (space, bytes) :: rest

/-- `GET /metrics`: of what the metrics show, the gauges over the bearer store and the registry. -/
def metrics : ServiceProg Gauges := do
  let activeCapabilities ← .perform .countCapabilities
  let reservedUploadBytes ← reservedSamples storageBuckets
  return { activeCapabilities, reservedUploadBytes }

/-- `POST /assets`. -/
def reserve (newId : Text) (body : ReserveBody) : ServiceProg Asset := do
  let caller ← .ret (requireServiceIdentity cfg.credentials authorization)
  .ret (raiseIf (body.ownerServiceId ≠ caller)
    { cls := .capabilityDenied, message := "owner must match authenticated service" })
  .ret (assertServiceBucketAllowed caller body.space .write)
  .perform (.guard (.reserveAsset cfg.env newId
    { space := body.space, partitionId := body.partitionId, aliases := aliasItems body.aliases
      ownerServiceId := body.ownerServiceId, mime := body.mime
      annotations := body.annotations.getD ∅, evictionPolicy := body.evictionPolicy
      ttlSeconds := body.ttlSeconds }))

/-- `POST /assets/{asset_id}/commit`. -/
def commit (assetId : Text) (body : CommitRequest) : ServiceProg Asset := do
  let caller ← .ret (requireServiceIdentity cfg.credentials authorization)
  callGuard (AssetStore.commit cfg.env caller assetId body)

/-- `GET /resolve`. -/
def resolve (space aliasName : Text) : ServiceProg Asset := do
  let caller ← .ret (requireServiceIdentity cfg.credentials authorization)
  .ret (assertServiceBucketAllowed caller space .read)
  callRegistry (resolveAlias space aliasName)

def updateAnnotations (assetId : Text) (body : AnnotationsUpdateRequest) : ServiceProg Asset :=
  legacyAdmin cfg authorization (some body.callerServiceId)
    (callRegistry (AssetStore.updateAnnotations assetId body.patch body.callerServiceId
      body.overwrite))

def expire (assetId callerServiceId : Text) : ServiceProg Asset :=
  legacyAdmin cfg authorization (some callerServiceId)
    (callRegistry (expireAsset assetId callerServiceId))

def delete (assetId callerServiceId : Text) : ServiceProg Asset :=
  legacyAdmin cfg authorization (some callerServiceId)
    (callRegistry (deleteAsset assetId callerServiceId))

def detachAlias (space aliasName callerServiceId : Text) : ServiceProg Unit :=
  legacyAdmin cfg authorization (some callerServiceId)
    (callRegistry (AssetStore.detachAlias space aliasName callerServiceId))

def detachMutableAlias (space aliasName callerServiceId : Text) : ServiceProg AliasBinding :=
  legacyAdmin cfg authorization (some callerServiceId)
    (callRegistry (AssetStore.detachMutableAlias space aliasName callerServiceId))

def rebindAlias (space aliasName newAssetId callerServiceId : Text) : ServiceProg AliasBinding :=
  legacyAdmin cfg authorization (some callerServiceId)
    (callRegistry (AssetStore.rebindAlias space aliasName newAssetId callerServiceId))

def setEvictionPolicy (assetId : Text) (policy : EvictionPolicy) (callerServiceId : Text) :
    ServiceProg Asset :=
  legacyAdmin cfg authorization (some callerServiceId)
    (callRegistry (AssetStore.setEvictionPolicy assetId policy callerServiceId))

/-- `PUT /quotas/partition`. Its schema has no caller, but a body may claim one. -/
def setPartitionQuota (claimed : Option Text) (body : PartitionQuotaRequest) :
    ServiceProg PartitionQuota :=
  legacyAdmin cfg authorization claimed
    (callRegistry (AssetStore.setPartitionQuota body.space body.partitionId body.quotaBytes
      body.quotaAssetCount body.evictionSweepEnabled adminService))

def getPartitionQuota (space partitionId : Text) : ServiceProg PartitionQuota :=
  legacyAdmin cfg authorization none (callRegistry (partitionQuota space partitionId))

def setBucketQuota (claimed : Option Text) (body : BucketQuotaRequest) : ServiceProg BucketQuota :=
  legacyAdmin cfg authorization claimed
    (callRegistry (AssetStore.setBucketQuota body.space body.quotaBytes body.warnThreshold
      body.hardCeiling))

def getBucketQuota (space : Text) : ServiceProg BucketQuota :=
  legacyAdmin cfg authorization none (callRegistry (bucketQuota space))

/-- `GET /audit`: the last events that match. -/
def listAudit (filter : AuditFilter) : ServiceProg (List AuditEvent) :=
  legacyAdmin cfg authorization none (do
    let r ← callRegistry tables
    let matched := r.auditEvents.filter fun e =>
      (∀ action ∈ filter.action, e.action.value = action) ∧
        (∀ target ∈ filter.target, e.target = target) ∧
        ∀ caller ∈ filter.callerServiceId, e.callerServiceId = caller
    return matched.drop (matched.length - filter.limit))

/-- `POST /capabilities`. -/
def mintCapability (capId : Text) (body : CapabilityMintRequest) : ServiceProg Capability := do
  let caller ← .ret (requireServiceIdentity cfg.credentials authorization)
  .perform (.admitIssuance caller)
  let bucket ← .ret (normalizeSpace (partitionSlash (stripSlash body.scopePrefix)).1)
  let record := fun outcome capabilityId =>
    recordCapabilityIssue cfg.env caller body.operation.value
    body.scopePrefix body.ttlSeconds outcome capabilityId
  match assertServiceBucketAllowed caller bucket body.operation with
  | .error e => do
    callRegistry (record "denied".toList none)
    .ret (.error e)
  | .ok () => do
    let now ← callRegistry utcnow
    let cap ← .ret (Capability.create capId body.operation body.scopePrefix
      (now + body.ttlSeconds * 1000000) caller body.singleUse)
    callGuard pruneConsumedCapabilities
    .perform (.issueCapability cap (record "granted".toList (some cap.capabilityId)))
    return cap

/-- The size that a request declares. -/
def checkDeclaredSize (maxUploadBytes : Int) : Option (Option Int) → Except Err Unit
  | none => .ok ()
  | some none => .error { cls := .validation, message := "invalid Content-Length" }
  | some (some size) => do
    raiseIf (size < 0) { cls := .validation, message := "invalid Content-Length" }
    raiseIf (maxUploadBytes < size)
      { cls := .uploadTooLarge, message := "proxy upload exceeds configured byte limit" }

/-- The body as it arrives: the limit is checked before each chunk is kept. -/
def receive (maxUploadBytes : Int) : List (List UInt8) → List UInt8 → Except Err (List UInt8)
  | [], data => .ok data
  | chunk :: rest, data => do
    raiseIf (maxUploadBytes < data.length + chunk.length)
      { cls := .uploadTooLarge, message := "proxy upload exceeds configured byte limit" }
    receive maxUploadBytes rest (data ++ chunk)

/-- `PUT /objects/{alias}`. -/
def writeObject (newId : Text) (upload : Upload) : ServiceProg Asset := do
  let cap ← requireCapability authorization
  callGuard (authorizeWrite cap upload.aliasName)
  .ret (checkDeclaredSize cfg.maxUploadBytes upload.declaredSize)
  let data ← .ret (receive cfg.maxUploadBytes upload.chunks [])
  let asset ← callGuard (AssetStore.writeObject cfg.env newId cap upload.aliasName data
    { mutable := upload.mutable, mime := upload.contentType,
      expectedChecksum := upload.expectedChecksum
      ttlSeconds := upload.ttlSeconds })
  let _ ← callRegistry (bucketQuota asset.space)
  return asset

/-- What a read answers: the bytes, or where they can be fetched. -/
inductive ReadReply
  | bytes (data : List UInt8)
  | presigned (url : PresignedRead)

/-- `GET /objects/{alias}`. -/
def readObject (aliasName mode : Text) (expiresIn : Int) : ServiceProg ReadReply := do
  let cap ← requireCapability authorization
  if mode = "presign".toList then
    let url ← callGuard (presignRead cfg.presignGetUrl cap aliasName expiresIn)
    return .presigned url
  else
    .ret (raiseIf (mode ≠ "proxy".toList)
      { cls := .validation, message := "mode must be 'proxy' or 'presign'" })
    let data ← callGuard (readBytes cap aliasName)
    return .bytes data

/-- `GET /admin/api/assets`. -/
def listing (query : AssetQuery) : ServiceProg Page :=
  console cfg authorization (do
    let q ← .ret query.validate
    let rows ← callRegistry (queryAssets cfg.env q)
    let shown := rows.take q.limit
    let quota ← callRegistry (listedQuota q)
    return {
      items := shown
      nextCursor := if q.limit < rows.length then shown.getLast?.map (q.cursorFor cfg.env) else none
      quota })

/-- `GET /admin/api/assets/{asset_id}`. -/
def inspect (assetId : Text) : ServiceProg (Asset × List AuditEvent) :=
  console cfg authorization (do
    let asset ← callRegistry (getAsset assetId)
    let events ← callRegistry (recentAudit (some assetId))
    return (asset, events.drop (events.length - 100)))

/-- `GET /admin/api/audit`. -/
def audit (limit : Int) : ServiceProg (List AuditEvent) :=
  console cfg authorization (callRegistry (recentAudit none limit))

/-- `POST /admin/api/assets/{asset_id}/actions`. -/
def mutate (assetId : Text) (body : Mutation) : ServiceProg Asset :=
  console cfg authorization (callGuard (AssetStore.mutate cfg.env assetId body))

/-- `PUT /admin/api/quotas/partition`. -/
def quota (body : PartitionQuotaRequest) : ServiceProg PartitionQuota :=
  console cfg authorization (callRegistry (AssetStore.setPartitionQuota body.space body.partitionId
    body.quotaBytes body.quotaAssetCount body.evictionSweepEnabled adminService))

/-- `GET /admin/api/aliases/expire`. -/
def preview (pathPrefix : Text) : ServiceProg (List Candidate) :=
  console cfg authorization (do
    let query ← .ret (bulkQuery pathPrefix)
    let rows ← callRegistry (queryAssets cfg.env query)
    .ret (raiseIf (query.limit < rows.length)
      { cls := .validation, message := "more than 500 assets match; narrow the prefix" })
    return rows.map fun a => { assetId := a.assetId, expectedUpdatedAt := a.updatedAt })

/-- `POST /admin/api/aliases/expire`. -/
def bulk (pathPrefix : Text) (body : BulkApply) : ServiceProg (Nat × Nat) :=
  console cfg authorization (callGuard (AssetStore.bulk pathPrefix body))

end Handlers

end Endpoint

/-! ### Requests -/

/-- A request, with the ids that are generated for it. -/
inductive Request
  | healthz
  | readyz
  | metrics
  | consolePage
  | staticFile (file : StaticFile)
  | reserve (newId : Text) (body : ReserveBody)
  | commit (assetId : Text) (body : CommitRequest)
  | resolve (space aliasName : Text)
  | updateAnnotations (assetId : Text) (body : AnnotationsUpdateRequest)
  | expire (assetId callerServiceId : Text)
  | delete (assetId callerServiceId : Text)
  | detachAlias (space aliasName callerServiceId : Text)
  | detachMutableAlias (space aliasName callerServiceId : Text)
  | rebindAlias (space aliasName newAssetId callerServiceId : Text)
  | setEvictionPolicy (assetId : Text) (policy : EvictionPolicy) (callerServiceId : Text)
  | setPartitionQuota (claimed : Option Text) (body : PartitionQuotaRequest)
  | getPartitionQuota (space partitionId : Text)
  | setBucketQuota (claimed : Option Text) (body : BucketQuotaRequest)
  | getBucketQuota (space : Text)
  | listAudit (filter : AuditFilter)
  | mintCapability (capId : Text) (body : CapabilityMintRequest)
  | writeObject (newId : Text) (upload : Upload)
  | readObject (aliasName mode : Text) (expiresIn : Int) (bounds : 1 ≤ expiresIn ∧ expiresIn ≤ 3600)
  | listing (query : AssetQuery)
  | inspect (assetId : Text)
  | audit (limit : Int) (bounds : 1 ≤ limit ∧ limit ≤ 500)
  | mutate (assetId : Text) (body : Mutation)
  | quota (body : PartitionQuotaRequest)
  | preview (pathPrefix : Text)
  | bulk (pathPrefix : Text) (body : BulkApply)

/-- What a request returns. -/
inductive Response
  | status (value : Text)
  | metrics (gauges : Gauges)
  | file (name : Text)
  | noContent
  | asset (a : Asset)
  | binding (b : AliasBinding)
  | partitionQuota (q : PartitionQuota)
  | bucketQuota (q : BucketQuota)
  | events (es : List AuditEvent)
  | capability (cap : Capability)
  | object (reply : Endpoint.ReadReply)
  | page (p : Page)
  | inspected (a : Asset) (es : List AuditEvent)
  | candidates (cs : List Candidate)
  | applied (applied skipped : Nat)

/-- A request as it arrives: the value of its `Authorization` header is empty when there is none. -/
structure Incoming where
  authorization : Text := []
  request : Request

/-- The handling of a request. -/
def Incoming.handle (cfg : ServiceConfig) (incoming : Incoming) : ServiceProg Response :=
  let auth := incoming.authorization
  match incoming.request with
  | .healthz => return .status "ok".toList
  | .readyz => return .status "ready".toList
  | .metrics => do return .metrics (← Endpoint.metrics)
  | .consolePage => return .file "index.html".toList
  | .staticFile file => return .file file.filename
  | .reserve newId body => do return .asset (← Endpoint.reserve cfg auth newId body)
  | .commit id body => do return .asset (← Endpoint.commit cfg auth id body)
  | .resolve space name => do return .asset (← Endpoint.resolve cfg auth space name)
  | .updateAnnotations id body => do return .asset (← Endpoint.updateAnnotations cfg auth id body)
  | .expire id caller => do return .asset (← Endpoint.expire cfg auth id caller)
  | .delete id caller => do return .asset (← Endpoint.delete cfg auth id caller)
  | .detachAlias space name caller => do
    Endpoint.detachAlias cfg auth space name caller
    return .noContent
  | .detachMutableAlias space name caller => do
    return .binding (← Endpoint.detachMutableAlias cfg auth space name caller)
  | .rebindAlias space name newId caller => do
    return .binding (← Endpoint.rebindAlias cfg auth space name newId caller)
  | .setEvictionPolicy id policy caller => do
    return .asset (← Endpoint.setEvictionPolicy cfg auth id policy caller)
  | .setPartitionQuota claimed body => do
    return .partitionQuota (← Endpoint.setPartitionQuota cfg auth claimed body)
  | .getPartitionQuota space pid => do
    return .partitionQuota (← Endpoint.getPartitionQuota cfg auth space pid)
  | .setBucketQuota claimed body =>
    do return .bucketQuota (← Endpoint.setBucketQuota cfg auth claimed body)
  | .getBucketQuota space => do return .bucketQuota (← Endpoint.getBucketQuota cfg auth space)
  | .listAudit filter => do return .events (← Endpoint.listAudit cfg auth filter)
  | .mintCapability capId body =>
    do return .capability (← Endpoint.mintCapability cfg auth capId body)
  | .writeObject newId upload => do return .asset (← Endpoint.writeObject cfg auth newId upload)
  | .readObject name mode expiresIn _ => do
    return .object (← Endpoint.readObject cfg auth name mode expiresIn)
  | .listing query => do return .page (← Endpoint.listing cfg auth query)
  | .inspect id => do
    let (a, es) ← Endpoint.inspect cfg auth id
    return .inspected a es
  | .audit limit _ => do return .events (← Endpoint.audit cfg auth limit)
  | .mutate id body => do return .asset (← Endpoint.mutate cfg auth id body)
  | .quota body => do return .partitionQuota (← Endpoint.quota cfg auth body)
  | .preview pathPrefix => do return .candidates (← Endpoint.preview cfg auth pathPrefix)
  | .bulk pathPrefix body => do
    let (applied, skipped) ← Endpoint.bulk cfg auth pathPrefix body
    return .applied applied skipped

end AssetStore
