import AssetStore.Lifecycle.Reading

/-! Evictions. A plan evicts from a group no more than its target calls for, and nothing that is
exempt, that has left the available state or that is due for another reason. -/

namespace AssetStore

open Lib

variable {arith : Arithmetic} {policy : SweepPolicy} {now : Time}
  {quota : Text → Text → PartitionQuota} {assets : List Asset} {plan : Plan} {g : SweptGroup}
  {groups : List SweptGroup}

/-- The reasons of the actions that a limit calls for. -/
def Action.Evicts (action : Action) : Prop :=
  action.reason = "quota_lfu".toList ∨ action.reason = "pressure_lfu".toList

/-- What an eviction may touch: an available asset of an evictable space that is not exempt and that
nothing else is due for. -/
structure Action.Admissible (arith : Arithmetic) (policy : SweepPolicy) (now : Time)
    (assets : List Asset) (action : Action) : Prop where
  listed : action.asset ∈ assets
  space : action.asset.space = "cache".toList ∨ action.asset.space = "tmp".toList
  state : action.asset.state = .available
  inherits : action.asset.evictionPolicy = .inherit
  undue : dueAction arith policy now action.asset = none
  expires : action.state = .expired ∧ action.purge = false

theorem Warranted.admissible {action : Action}
    (h : Warranted arith policy now quota assets plan action) (he : action.Evicts) :
    action.Admissible arith policy now assets := by
  cases h with
  | due listed due =>
    rcases dueAction_reason due with hr | hr <;> rw [Action.Evicts, hr] at he <;> simp at he
  | @evict g a swept limited may held inherits undue convertible above =>
    obtain ⟨hmember, hstate, -⟩ := Plan.mem_available.mp held
    obtain ⟨hlisted, hspace⟩ := SweptGroup.mem_members hmember
    refine ⟨hlisted, ?_, hstate, inherits, undue, rfl, rfl⟩
    simpa [evictable, hspace] using may

/-- In exact arithmetic every number stands for itself. -/
theorem exact_feasible : Feasible .exact policy now quota assets groups := fun _ g _ _ =>
  { ratio := by cases g <;> exact (by trivial)
    limit := fun _ => by
      cases g with
      | partition s p => exact fun _ _ => rfl
      | bucket s capacity => exact rfl
    sizes := fun _ _ _ => rfl }

/-- The plan for a listing has at most one action for an asset, and evicts only what may be evicted.
Each group that calls for it is relieved by the shortest prefix of its candidates in the order of
their scores, the partitions before the spaces; exactly the spaces of the groups that stay above
their target are reported as exhausted. The order of the listing does not matter, and the planner
returns this plan for what the registry lists. -/
theorem plan_relieves (distinct : DistinctIds assets) :
    (planFor .exact policy now quota assets).selected.Nodup ∧
    (∀ action ∈ (planFor .exact policy now quota assets).actions, action.Evicts →
      action.Admissible .exact policy now assets) ∧
    (∀ before g after, sweptGroups policy assets = before ++ g :: after →
      (g.Triggered .exact policy quota assets (planUpto .exact policy now quota assets before) →
        ∃ order taken, Relieved .exact now (g.target .exact policy quota) g.reason
          (g.members assets)
          (planUpto .exact policy now quota assets before)
          (planUpto .exact policy now quota assets (before ++ [g])) order taken) ∧
      (¬g.Triggered .exact policy quota assets (planUpto .exact policy now quota assets before) →
        (planUpto .exact policy now quota assets (before ++ [g])).actions =
          (planUpto .exact policy now quota assets before).actions)) ∧
    (∀ space, space ∈ (planFor .exact policy now quota assets).exhausted ↔
      ∃ before g after, sweptGroups policy assets = before ++ g :: after ∧
        g.space = space ∧ g.Exhausts .exact policy now quota assets before) ∧
    (∀ assets', assets.Perm assets' →
      planFor .exact policy now quota assets' = planFor .exact policy now quota assets) ∧
    ∀ s : GuardState, Sound s.reg → s.reg.listed = assets → s.reg.counters = quota →
      alone (planSweep .exact policy now) s = .ok (planFor .exact policy now quota assets) s := by
  have hproper : (planFor .exact policy now quota assets).Proper .exact policy now quota assets :=
    planFor_proper distinct exact_feasible
  refine ⟨hproper.once, fun action haction he => ?_,
    fun before g after _ => ⟨fun ht => ?_, fun ht => ?_⟩,
    fun space => planUpto_exhausted distinct, fun assets' hperm =>
      (planFor_eq distinct hperm).symm, ?_⟩
  · obtain ⟨before, after, hsplit⟩ := List.append_of_mem haction
    exact (hproper.warranted before action after hsplit).admissible he
  · obtain ⟨order, taken, hr, -⟩ := Plan.visit_triggered now distinct ht
    rw [planUpto_concat]
    exact ⟨order, taken, hr⟩
  · rw [planUpto_concat]
    exact (Plan.visit_idle now ht).1
  · rintro s hs rfl rfl
    exact (planSweep_eq_ok hs).mpr ⟨exact_feasible, rfl, rfl⟩

/-- A cached asset of ten bytes. -/
def cachedAsset : Asset :=
  { assetId := "a1".toList, space := "cache".toList, partitionId := "m".toList
    storageKey := "m/a1".toList, state := .available, sizeBytes := some 10
    checksum := some "sha256:00".toList, createdAt := 0, updatedAt := 0, aliases := ∅ }

/-- A partition that may hold ten bytes. -/
def tenBytes (space partitionId : Text) : PartitionQuota :=
  { space, partitionId, quotaBytes := some 10, evictionSweepEnabled := true }

theorem plan_relieves_cached :
    (planFor .exact {} 86400000000 tenBytes [cachedAsset]).selected = ["a1".toList] ∧
      ∀ action ∈ (planFor .exact {} 86400000000 tenBytes [cachedAsset]).actions, action.Evicts →
        action.Admissible .exact {} 86400000000 [cachedAsset] := by
  have hplan : (planFor .exact {} 86400000000 tenBytes [cachedAsset]).selected = ["a1".toList] := by
    decide +kernel
  have hdistinct : DistinctIds [cachedAsset] := by decide
  exact ⟨hplan, (plan_relieves hdistinct).2.1⟩

end AssetStore
