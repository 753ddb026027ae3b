import AssetStore.Admin
import AssetStore.Guard

/-! The actions of the admin console. An action names the revision of the asset that the operator
has seen, and it is checked and applied in one block under the lock of the asset. -/

namespace AssetStore

open Lib

/-- The service id of the console. -/
def adminService : Text := "admin".toList

inductive MutationAction
  | expire
  | delete
  | ttl
  | attach
  | detach
  | annotations
  | eviction
  deriving DecidableEq

/-- The body of a mutation. -/
structure Mutation where
  expectedUpdatedAt : Time
  action : MutationAction
  ttlSeconds : Option Int := none
  aliasName : Option Text := none
  mutable : Bool := false
  annotations : Option Mapping := none
  evictionPolicy : Option EvictionPolicy := none
  ttl_pos : ∀ seconds ∈ ttlSeconds, 0 < seconds := by simp

/-- Detaches an alias of the asset that was inspected, whether it is mutable or not. -/
def detachOwn (asset : Asset) (aliasName : Text) : RegM Unit := do
  let name := stripSlash (stripSpace aliasName)
  attempt (raiseIf (asset.space ++ '/' :: name ∉ asset.aliases)
    { cls := .validation, message := "alias does not belong to this asset" })
  try
    detachAlias asset.space name adminService
  catch e =>
    if e.cls = .aliasImmutable then do
      let _ ← detachMutableAlias asset.space name adminService
    else attempt (.error e)

/-- A field of the body that its action needs. -/
def required {α : Type} (value : Option α) (message : String) : RegM α :=
  attempt (someOr value { cls := .validation, message })

/-- What the action does to the asset. -/
def Mutation.apply (env : Env) (body : Mutation) (assetId : Text) (asset : Asset) : RegM Unit :=
  match body.action with
  | .expire => do
    let _ ← expireAsset assetId adminService
  | .delete => do
    let _ ← deleteAsset assetId adminService
  | .ttl => do
    let seconds ← required body.ttlSeconds "ttl_seconds is required"
    let _ ← setAssetTtl env assetId seconds adminService
  | .attach => do
    let name ← required (given body.aliasName) "relative alias is required"
    let _ ← attachAlias assetId name body.mutable adminService
  | .detach => do
    let name ← required (given body.aliasName) "relative alias is required"
    detachOwn asset name
  | .annotations => do
    let patch ← required body.annotations "annotations are required"
    let _ ← updateAnnotations assetId patch adminService true
  | .eviction => do
    let policy ← required body.evictionPolicy "eviction_policy is required"
    let _ ← setEvictionPolicy assetId policy adminService

/-- `mutate`. -/
def mutate (env : Env) (assetId : Text) (body : Mutation) : GuardProg Asset :=
  withAssetLock assetId fun asset => do
    check (raiseIf (body.expectedUpdatedAt ≠ asset.updatedAt)
      { cls := .invalidStateTransition, message := "asset changed; reload before applying" })
    return do
      body.apply env assetId asset
      getAsset assetId

/-! ### Bulk expiry -/

/-- An asset to expire, with the revision that the preview showed. -/
structure Candidate where
  assetId : Text
  expectedUpdatedAt : Time
  deriving DecidableEq

structure BulkApply where
  candidates : List Candidate
  at_most : candidates.length ≤ 500 := by decide

/-- `bulk_query`. -/
def bulkQuery (pathPrefix : Text) : Except Err AssetQuery := do
  let query ← AssetQuery.validate
    { pathPrefix := some pathPrefix, state := some .available, limit := 500 }
  raiseIf (∀ path ∈ query.pathPrefix, (path.splitOn '/').length < 2)
    { cls := .validation, message := "bulk prefix must include a bucket and partition" }
  return query

/-- One candidate of a bulk expiry; it tells whether the candidate was expired or skipped. -/
def expireCandidate (query : AssetQuery) (candidate : Candidate) : GuardProg Bool :=
  withAssetLock candidate.assetId fun asset =>
    if asset.updatedAt ≠ candidate.expectedUpdatedAt ∨ asset.state ≠ .available ∨
        ¬∃ name ∈ asset.aliases, isUnder (query.pathPrefix.getD []) name = true then
      return pure false
    else return do
      let _ ← expireAsset asset.assetId adminService
      return true

/-- The candidates, one after the other; it counts the applied and the skipped ones. -/
def expireCandidates (query : AssetQuery) : List Candidate → Nat → Nat → GuardProg (Nat × Nat)
  | [], applied, skipped => pure (applied, skipped)
  | candidate :: rest, applied, skipped => do
    let expired ← expireCandidate query candidate
    if expired then expireCandidates query rest (applied + 1) skipped
    else expireCandidates query rest applied (skipped + 1)

/-- `bulk`. -/
def bulk (pathPrefix : Text) (body : BulkApply) : GuardProg (Nat × Nat) := do
  let query ← check (bulkQuery pathPrefix)
  check (raiseIf (¬(body.candidates.map fun c => c.assetId).Nodup)
    { cls := .validation, message := "duplicate candidate" })
  expireCandidates query body.candidates 0 0

end AssetStore
