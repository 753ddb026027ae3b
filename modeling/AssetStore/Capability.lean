import AssetStore.Models

/-! Capabilities: prefix-scoped, time-bounded grants, the ledger of consumed single-use grants, and
the service-to-bucket allowlist. -/

namespace AssetStore

open Lib

/-- The operations a capability can authorize. -/
inductive Operation
  | read
  | write
  deriving DecidableEq, Repr

def Operation.value : Operation → Text
  | .read => "read".toList
  | .write => "write".toList

/-- `Capability.__post_init__`: the scope names a bucket and at least one segment. -/
def validateScope (scopePrefix : Text) : Except Err Unit := do
  let parts := (stripSlash (stripSpace scopePrefix)).splitOn '/'
  raiseIf (parts.length < 2)
    { cls := .validation
      message :=
        "scope_prefix must include bucket and at least one segment, e.g. 'users/42/uploads'" }
  match (do
      let _ ← normalizeSpace (parts.headD [])
      normalizeRelativeAlias (['/'].intercalate parts.tail)) with
  | .ok _ => return ()
  | .error exc =>
    .error { cls := .validation, message := "invalid scope_prefix %r: " ++ exc.message
             args := scopePrefix :: exc.args }

/-- A time-bounded grant for an operation on the aliases under a path. -/
structure Capability where
  capabilityId : Text
  operation : Operation
  scopePrefix : Text
  expiresAt : Time
  callerServiceId : Text
  singleUse : Bool := false
  scope_valid : validateScope scopePrefix = .ok ()

/-- `_is_same_path_or_child`. -/
def isSamePathOrChild (candidate scope : Text) : Bool :=
  isUnder (stripSlash scope) (stripSlash candidate)

/-- Whether the capability authorizes the operation at the instant `now`. -/
def Capability.allows (cap : Capability) (operation : Operation) (qualified : Text) (now : Time) :
    Bool :=
  operation == cap.operation && decide (now < cap.expiresAt) &&
    isSamePathOrChild qualified cap.scopePrefix

/-- `Capability.require` at the clock reading `now`. -/
def Capability.require (cap : Capability) (operation : Operation) (qualified : Text) (now : Time) :
    Except Err Unit :=
  raiseIf (cap.allows operation qualified now = false)
    { cls := .capabilityDenied, message := "capability does not authorize %s on %r"
      args := [operation.value, qualified] }

/-! ### The ledger of consumed grants -/

/-- `SingleUseLedger`: the consumed ids with the expiry of their capability. -/
abbrev Ledger := Dict Text Time

/-- `_prune_locked`: retires the ids whose capability has expired. -/
def Ledger.prune (l : Ledger) (now : Time) : Ledger := l.filter fun expiresAt => now < expiresAt

def alreadyConsumed : Err :=
  { cls := .capabilityAlreadyConsumed, message := "single-use capability already consumed" }

/-- `assert_unused`, and the ledger it leaves. -/
def Ledger.assertUnused (l : Ledger) (cap : Capability) (now : Time) : Except Err Unit × Ledger :=
  let l := l.prune now
  (raiseIf (cap.singleUse = true ∧ (l.get cap.capabilityId).isSome) alreadyConsumed, l)

/-- `record_successful_use`, and the ledger it leaves. -/
def Ledger.recordSuccessfulUse (l : Ledger) (cap : Capability) (now : Time) :
    Except Err Unit × Ledger :=
  let l := l.prune now
  if cap.singleUse then
    if (l.get cap.capabilityId).isSome then (.error alreadyConsumed, l)
    else (.ok (), l.set cap.capabilityId cap.expiresAt)
  else (.ok (), l)

/-! ### `service_policy.py` -/

/-- `_SERVICE_READ_BUCKETS`. -/
def serviceReadBuckets : List (Text × List Text) :=
  [("fetcher".toList, ["cache".toList, "tmp".toList]),
   ("upload-api".toList, ["users".toList, "tmp".toList]),
   ("bulk-loader".toList, ["cache".toList]),
   ("worker".toList, ["cache".toList, "users".toList, "tmp".toList, "results".toList]),
   ("task-api".toList, ["cache".toList, "users".toList, "tmp".toList]),
   ("admin".toList, storageBuckets),
   ("iiif-server".toList, ["cache".toList, "users".toList])]

/-- `_SERVICE_WRITE_BUCKETS`. -/
def serviceWriteBuckets : List (Text × List Text) :=
  [("fetcher".toList, ["cache".toList, "tmp".toList]),
   ("upload-api".toList, ["users".toList, "tmp".toList]),
   ("bulk-loader".toList, ["cache".toList]),
   ("worker".toList, ["results".toList]),
   ("task-api".toList, ["tmp".toList]),
   ("admin".toList, storageBuckets),
   ("iiif-server".toList, [])]

def bucketsForService (serviceId : Text) (operation : Operation) : Except Err (List Text) :=
  let table := if operation = .read then serviceReadBuckets else serviceWriteBuckets
  someOr (table.lookup (stripSpace serviceId))
    { cls := .capabilityDenied, message := "unknown service identity %r", args := [serviceId] }

def assertServiceBucketAllowed (serviceId bucket : Text) (operation : Operation) :
    Except Err Unit := do
  let allowed ← bucketsForService serviceId operation
  let norm ← normalizeBucket bucket
  raiseIf (norm ∉ allowed)
    { cls := .capabilityDenied, message := "service %r may not %s bucket %r"
      args := [serviceId, operation.value, norm] }

end AssetStore
