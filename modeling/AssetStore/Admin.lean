import AssetStore.Registry

/-! The admin listing: the filters of a request are validated, the registry is queried for one asset
more than the page holds, and the cursor of the next page names the last asset of this one. -/

namespace AssetStore

open Lib

/-! ### `admin_query.py` -/

/-- A text that is given and not empty. -/
def given : Option Text → Option Text
  | some (c :: rest) => some (c :: rest)
  | _ => none

/-- Normalizes a filter that is given. -/
def normalizeFilter (normalize : Text → Except Err Text) (value : Option Text) :
    Except Err (Option Text) :=
  match given value with
  | some text => do return some (← normalize text)
  | none => .ok value

/-- `validate_filters`. -/
def validateFilters (f : AssetFilter) : Except Err AssetFilter := do
  let space ← normalizeFilter normalizeSpace f.space
  raiseIf ((given f.partitionId).isSome ∧ given space = none)
    { cls := .validation, message := "partition_id requires space" }
  let partitionId ← normalizeFilter normalizePartitionId f.partitionId
  let pathPrefix ← normalizeFilter (fun text => do
    let path ← normalizeRelativeAlias text
    let _ ← normalizeSpace ((path.splitOn '/').headD [])
    return path) f.pathPrefix
  raiseIf (∃ t ∈ f.createdFrom, ∃ t' ∈ f.createdTo, t' < t)
    { cls := .validation, message := "created_from must not exceed created_to" }
  return { f with space, partitionId, pathPrefix }

/-- The bounds of the fields and the filters of a query, as a request is validated. -/
def AssetQuery.validate (q : AssetQuery) : Except Err AssetQuery := do
  raiseIf (¬(1 ≤ q.limit ∧ q.limit ≤ 500))
    { cls := .validation, message := "limit must be between 1 and 500" }
  raiseIf (∃ c ∈ q.cursor, 2048 < c.length)
    { cls := .validation, message := "cursor is too long" }
  let filter ← validateFilters q.toAssetFilter
  return { q with toAssetFilter := filter }

/-- `cursor_for`. -/
def AssetQuery.cursorFor (env : Env) (q : AssetQuery) (a : Asset) : Text :=
  env.encodeCursor (env.fingerprint q.toAssetFilter, a.createdAt, a.assetId)

/-! ### `api/admin.py` -/

/-- What the listing returns. -/
structure Page where
  items : List Asset
  nextCursor : Option Text
  quota : Option PartitionQuota

/-- The quota that is shown beside the assets of one partition. -/
def listedQuota (q : AssetQuery) : RegM (Option PartitionQuota) :=
  match given q.space, given q.partitionId with
  | some space, some partitionId => do return some (← partitionQuota space partitionId)
  | _, _ => pure none

/-- `listing`. -/
def listing (env : Env) (query : AssetQuery) : RegM Page := do
  let q ← attempt query.validate
  let rows ← queryAssets env q
  let shown := rows.take q.limit
  let quota ← listedQuota q
  return {
    items := shown
    nextCursor := if q.limit < rows.length then shown.getLast?.map (q.cursorFor env) else none
    quota }

end AssetStore
