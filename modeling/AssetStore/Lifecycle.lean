import AssetStore.Guard
import AssetStore.Lib.Doubles

/-! The maintenance worker: it plans expiries, evictions and purges from a listing, and applies each
action under the lock of its asset. It computes ages, ratios and targets in doubles; what it plans
can also be looked at in exact arithmetic. -/

namespace AssetStore

open Lib

/-! ### Arithmetic -/

/-- How floats are computed: which numbers have one, and the float that stands for a number. -/
structure Arithmetic where
  finite : Rat → Bool
  round : Rat → Rat
  finite_mono : ∀ x y, |x| ≤ |y| → finite y = true → finite x = true
  round_zero : round 0 = 0

namespace Arithmetic

/-- Every number stands for itself. -/
def exact : Arithmetic where
  finite _ := true
  round x := x
  finite_mono _ _ _ _ := rfl
  round_zero := rfl

/-- The arithmetic of Python's floats. -/
def double : Arithmetic where
  finite := isFinite
  round := nearestDouble
  finite_mono _ _ := isFinite_mono
  round_zero := nearestDouble_zero

variable (arith : Arithmetic)

/-- The conversion of an int that takes part in an operation with a float. -/
def convert (n : Int) : Except Err Unit :=
  raiseIf (arith.finite n = false)
    { cls := .overflowError, message := "int too large to convert to float" }

/-- `int * float`, once the int is converted. -/
def times (n : Int) (x : Rat) : Rat := arith.round (arith.round n * x)

/-- `int / int`. -/
def ratio (m n : Int) : Except Err Rat := do
  raiseIf (arith.finite ((m : Rat) / n) = false)
    { cls := .overflowError, message := "integer division result too large for a float" }
  return arith.round ((m : Rat) / n)

/-- `(later - earlier).total_seconds()`. -/
def totalSeconds (later earlier : Time) : Rat :=
  arith.round (((later - earlier : Int) : Rat) / 1000000)

end Arithmetic

/-! ### Policies and plans -/

/-- The thresholds of a sweep, as `SweepPolicy` validates them. -/
structure SweepPolicy where
  pendingSeconds : Int := 86400
  graceSeconds : Text → Int := fun space => if space = "tmp".toList then 86400 else 7 * 86400
  capacityBytes : Dict Text Int := .empty
  pressureTrigger : Rat := 9 / 10
  pressureTarget : Rat := 7 / 10
  quotaTrigger : Rat := 9 / 10
  quotaTarget : Rat := 3 / 4
  pending_pos : 0 < pendingSeconds := by decide
  grace_nonneg : ∀ space ∈ storageBuckets, 0 ≤ graceSeconds space := by decide
  capacity_valid : ∀ space bytes, capacityBytes.get space = some bytes →
    space ∈ storageBuckets ∧ 0 < bytes := by simp
  pressure_valid : 0 ≤ pressureTarget ∧ pressureTarget < pressureTrigger ∧ pressureTrigger ≤ 1 := by
    norm_num
  quota_valid : 0 ≤ quotaTarget ∧ quotaTarget < quotaTrigger ∧ quotaTrigger ≤ 1 := by norm_num

/-- The policy of `SweepPolicy()`. -/
def SweepPolicy.standard : SweepPolicy := {}

/-- An intended transition of a listed asset, to be checked again before it is applied. -/
structure Action where
  asset : Asset
  state : AssetState
  reason : Text
  purge : Bool := false
  deriving DecidableEq

/-- What a sweep means to do, the spaces where it cannot reach the target, and the occupancy. -/
structure Plan where
  actions : List Action := []
  exhausted : Finset Text := ∅
  ratios : List (Text × Rat) := []

structure SweepReport where
  dryRun : Bool
  candidates : Nat := 0
  applied : Nat := 0
  skipped : Nat := 0
  errors : Nat := 0
  exhausted : Finset Text := ∅
  deriving DecidableEq

/-! ### Planning -/

/-- `_score`: idle days times size, then the id. The size is one that converts. -/
def score (arith : Arithmetic) (a : Asset) (now : Time) : Rat ×ₗ Text :=
  let seconds := arith.totalSeconds now (a.lastReadAt.getD a.createdAt)
  let age := arith.round (max 0 seconds / 86400)
  toLex (arith.times (a.sizeBytes.getD 0) age, a.assetId)

/-- The action that the age or the state of an asset calls for. A float is compared with an int as
they are. -/
def dueAction (arith : Arithmetic) (policy : SweepPolicy) (now : Time) (a : Asset) :
    Option Action :=
  match a.state with
  | .pending =>
    if (policy.pendingSeconds : Rat) ≤ arith.totalSeconds now a.createdAt then
      some { asset := a, state := .deleted, reason := "orphan".toList, purge := true }
    else none
  | .available =>
    if ∃ t ∈ a.expiresAt, t ≤ now then
      some { asset := a, state := .expired, reason := "ttl_expired".toList }
    else none
  | .expired =>
    if (policy.graceSeconds a.space : Rat) ≤
        arith.totalSeconds now (a.expiredAt.getD a.updatedAt) then
      some { asset := a, state := .deleted, reason := "ttl_expired".toList, purge := true }
    else none
  | .deleted =>
    if a.payloadDeletedAt = none then
      some { asset := a, state := .deleted, reason := "orphan".toList, purge := true }
    else none

/-- The ids that the plan has an action for. -/
def Plan.selected (plan : Plan) : List Text := plan.actions.map fun action => action.asset.assetId

/-- The ids whose payload the plan removes. -/
def Plan.purged (plan : Plan) : List Text :=
  (plan.actions.filter fun action => action.purge).map fun action => action.asset.assetId

/-- The available assets of a group that the plan does not touch yet. -/
def Plan.available (plan : Plan) (group : List Asset) : List Asset :=
  group.filter fun a => a.state = .available ∧ a.assetId ∉ plan.selected

/-- `sum(a.size_bytes or 0 for a in group)`. -/
def sumSizes (group : List Asset) : Int := (group.map fun a => a.sizeBytes.getD 0).sum

/-- Takes candidates until at most `target` bytes remain. -/
def takeUntil (target : Rat) : List Asset → Int → List Asset × Int
  | [], remaining => ([], remaining)
  | a :: rest, remaining =>
    if (remaining : Rat) ≤ target then ([], remaining)
    else
      let (taken, left) := takeUntil target rest (remaining - a.sizeBytes.getD 0)
      (a :: taken, left)

/-- The available assets of a group that may be evicted. -/
def Plan.inheriting (plan : Plan) (group : List Asset) : List Asset :=
  (plan.available group).filter fun a => a.evictionPolicy = .inherit

/-- Expires the assets of a group with the highest scores. -/
def Plan.relieve (arith : Arithmetic) (plan : Plan) (now : Time) (group : List Asset) (target : Rat)
    (reason space : Text) : Plan :=
  let candidates := (plan.inheriting group).mergeSort fun a b =>
    decide (score arith b now ≤ score arith a now)
  let (taken, left) := takeUntil target candidates (sumSizes (plan.available group))
  { plan with
    actions := plan.actions ++ taken.map fun a => { asset := a, state := .expired, reason }
    exhausted := if target < (left : Rat) then insert space plan.exhausted else plan.exhausted }

/-- `evict`: the key of each candidate converts its size. -/
def Plan.evict (arith : Arithmetic) (plan : Plan) (now : Time) (group : List Asset) (target : Rat)
    (reason space : Text) : Except Err Plan := do
  (plan.inheriting group).forM fun a => arith.convert (a.sizeBytes.getD 0)
  return plan.relieve arith now group target reason space

/-- The spaces whose assets may be evicted. -/
def evictable (space : Text) : Bool := space = "cache".toList ∨ space = "tmp".toList

/-- The partitions of a listing whose quota may call for evictions, in order. -/
def sweptPartitions (assets : List Asset) : List (Text × Text) :=
  (((assets.map fun a => (a.space, a.partitionId)).filter fun key =>
    evictable key.1).dedup).mergeSort
    fun a b => decide (toLex a ≤ toLex b)

/-- The eviction that the quota of a partition calls for. -/
def Plan.evictQuota (arith : Arithmetic) (plan : Plan) (policy : SweepPolicy) (now : Time)
    (assets : List Asset) (key : Text × Text) (quota : PartitionQuota) : Except Err Plan :=
  match quota.quotaBytes with
  | none => return plan
  | some bytes => do
    let group := assets.filter fun a => a.space = key.1 ∧ a.partitionId = key.2
    let used := sumSizes (plan.available group)
    if quota.evictionSweepEnabled ∧ 0 < used then
      arith.convert bytes
      if arith.times bytes policy.quotaTrigger ≤ used then
        let target := arith.times bytes policy.quotaTarget
        plan.evict arith now group target "quota_lfu".toList key.1
      else return plan
    else return plan

/-- Reads the quota of one partition after the other. -/
def evictQuotas (arith : Arithmetic) (policy : SweepPolicy) (now : Time) (assets : List Asset) :
    List (Text × Text) → Plan → GuardProg Plan
  | [], plan => pure plan
  | key :: rest, plan => do
    let quota ← registry (partitionQuota key.1 key.2)
    let plan ← check (plan.evictQuota arith policy now assets key quota)
    evictQuotas arith policy now assets rest plan

def sumPhysical (group : List Asset) : Int := (group.map fun a => a.physicalBytes).sum

/-- The eviction that the capacity of a space calls for. -/
def Plan.evictPressure (arith : Arithmetic) (plan : Plan) (policy : SweepPolicy) (now : Time)
    (assets : List Asset) (space : Text) (capacity : Int) : Except Err Plan := do
  let group := assets.filter fun a => a.space = space
  let physical := sumPhysical (group.filter fun a => a.payloadDeletedAt = none)
  let ratio ← arith.ratio physical capacity
  let plan := { plan with ratios := plan.ratios ++ [(space, ratio)] }
  let projected := sumPhysical (group.filter fun a => a.assetId ∉ plan.purged)
  if evictable space then
    arith.convert capacity
    if arith.times capacity policy.pressureTrigger ≤ projected then
      let target := arith.times capacity policy.pressureTarget
      plan.evict arith now group target "pressure_lfu".toList space
    else return plan
  else return plan

/-- `sorted(policy.capacity_bytes.items())`. -/
def SweepPolicy.capacities (policy : SweepPolicy) : List (Text × Int) :=
  (policy.capacityBytes.keys.mergeSort fun a b => decide (a ≤ b)).filterMap fun space =>
    (policy.capacityBytes.get space).map fun bytes => (space, bytes)

/-- `plan_sweep`. -/
def planSweep (arith : Arithmetic) (policy : SweepPolicy) (now : Time) : GuardProg Plan := do
  let assets ← registry listAssets
  let byId := assets.mergeSort fun a b => decide (a.assetId ≤ b.assetId)
  let due : Plan := { actions := byId.filterMap (dueAction arith policy now) }
  let plan ← evictQuotas arith policy now assets (sweptPartitions assets) due
  check (policy.capacities.foldlM
    (fun plan c => plan.evictPressure arith policy now assets c.1 c.2) plan)

/-! ### Applying -/

/-- Whether a partition whose sweep is enabled holds more than its target. -/
def aboveTarget (arith : Arithmetic) (policy : SweepPolicy) (quota : PartitionQuota) :
    Except Err Bool :=
  match quota.quotaBytes with
  | none => return false
  | some bytes =>
    if quota.evictionSweepEnabled then do
      arith.convert bytes
      return decide (arith.times bytes policy.quotaTarget < quota.usedBytes)
    else return false

/-- Whether the usage still calls for an eviction. -/
def stillDue (arith : Arithmetic) (policy : SweepPolicy) (action : Action) : GuardProg Bool :=
  if action.reason = "quota_lfu".toList then do
    let quota ← registry (partitionQuota action.asset.space action.asset.partitionId)
    check (aboveTarget arith policy quota)
  else if action.reason = "pressure_lfu".toList then do
    let quota ← registry (bucketQuota action.asset.space)
    let capacity ← check (someOr (policy.capacityBytes.get action.asset.space)
      { cls := .keyError, message := "%r", args := [action.asset.space] })
    check (arith.convert capacity)
    return decide (arith.times capacity policy.pressureTarget < quota.usedBytes)
  else pure true

/-- The first locked block of an action: the transition of an asset that has not changed since it
was listed. It tells whether the action goes on. -/
def transitionLocked (arith : Arithmetic) (policy : SweepPolicy) (now : Time) (action : Action) :
    GuardProg Bool :=
  withAssetLock action.asset.assetId fun current => do
    if current ≠ action.asset then return pure false
    else
      let due ← stillDue arith policy action
      if due = false then return pure false
      else if action.purge = false ∨ current.state ≠ .deleted then
        return do
          let _ ← lifecycleUpdate current action.state now action.reason
          return true
      else return pure true

/-- The second locked block of a purge: the deleted state is durable before the bytes go. -/
def purgeLocked (now : Time) (action : Action) : GuardProg Bool :=
  withAssetLock action.asset.assetId fun fenced => do
    if fenced.payloadDeletedAt ≠ none then return pure false
    else
      check (raiseIf (fenced.state ≠ .deleted)
        { cls := .runtimeError, message := "cleanup asset is not fenced" })
      .perform (.deleteObject { bucket := fenced.space, key := fenced.storageKey })
      return do
        let _ ← lifecycleUpdate fenced .deleted now action.reason true
        return true

/-- One action; it tells whether the action was applied or skipped. -/
def applyAction (arith : Arithmetic) (policy : SweepPolicy) (now : Time) (action : Action) :
    GuardProg Bool := do
  let moved ← transitionLocked arith policy now action
  if moved = true ∧ action.purge = true then purgeLocked now action else pure moved

/-- The report after an action. -/
def SweepReport.count (report : SweepReport) : Option Bool → SweepReport
  | some true => { report with applied := report.applied + 1 }
  | some false => { report with skipped := report.skipped + 1 }
  | none => { report with errors := report.errors + 1 }

/-- The apply loop: a failed action is kept for the next pass. -/
def applyActions (arith : Arithmetic) (policy : SweepPolicy) (now : Time) :
    List Action → SweepReport → GuardProg SweepReport
  | [], report => pure report
  | action :: rest, report => do
    let outcome ← Prog.tryCatch
      (do
        let applied ← applyAction arith policy now action
        return some applied)
      fun _ => pure none
    applyActions arith policy now rest (report.count outcome)

/-- `now or utcnow()`. -/
def nowOr : Option Time → GuardProg Time
  | some now => pure now
  | none => registry utcnow

/-- `run_sweep`. -/
def runSweep (arith : Arithmetic) (policy : SweepPolicy) (dryRun : Bool := true)
    (now : Option Time := none) : GuardProg SweepReport := do
  let now ← nowOr now
  let plan ← planSweep arith policy now
  let report : SweepReport :=
    { dryRun, candidates := plan.actions.length, exhausted := plan.exhausted }
  if dryRun then return report else applyActions arith policy now plan.actions report

end AssetStore
