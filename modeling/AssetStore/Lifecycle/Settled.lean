import AssetStore.Lifecycle.Sweeping

/-! A sweep does not need to be repeated. What the first plan leaves of a group only gets smaller: a
group that was not triggered is not triggered later, and a group that was relieved either is at its
target or has nothing left that may be evicted. -/

namespace AssetStore

open Lib

variable {arith : Arithmetic} {policy : SweepPolicy} {now : Time}
  {quota quota' : Text → Text → PartitionQuota} {assets assets' group : List Asset}
  {plan plan' : Plan} {g : SweptGroup}

/-! ### What the first plan leaves -/

/-- The second listing is what the actions of the plan leave of the first one. -/
structure Leftover (now : Time) (plan : Plan) (assets assets' : List Asset) : Prop where
  distinct : DistinctIds assets
  distinct' : DistinctIds assets'
  size_nonneg : ∀ a ∈ assets, 0 ≤ a.sizeBytes.getD 0
  bytes_nonneg : ∀ a ∈ assets, 0 ≤ a.physicalBytes
  origin : ∀ a' ∈ assets', (a' ∈ assets ∧ a'.assetId ∉ plan.selected) ∨
    ∃ action ∈ plan.actions, action.purge = false ∧ action.asset ∈ assets ∧ a' = action.result now

theorem SweptGroup.mem_members_of_same {a a' : Asset} (h : a' ∈ g.members assets') (ha : a ∈ assets)
    (space : a'.space = a.space) (partition : a'.partitionId = a.partitionId) :
    a ∈ g.members assets := by
  cases g with
  | partition s p =>
    obtain ⟨hs, hp⟩ := of_decide_eq_true (List.mem_filter.mp h).2
    exact List.mem_filter.mpr ⟨ha, decide_eq_true ⟨space.symm.trans hs, partition.symm.trans hp⟩⟩
  | bucket s capacity =>
    have hs := of_decide_eq_true (List.mem_filter.mp h).2
    exact List.mem_filter.mpr ⟨ha, decide_eq_true (space.symm.trans hs)⟩

theorem Action.result_same (action : Action) (now : Time) :
    (action.result now).assetId = action.asset.assetId ∧
      (action.result now).space = action.asset.space ∧
      (action.result now).partitionId = action.asset.partitionId ∧
      (action.result now).physicalBytes = action.asset.physicalBytes := by
  unfold Action.result
  split <;> exact ⟨rfl, rfl, rfl, rfl⟩

theorem Plan.not_mem_purged (once : plan.selected.Nodup) {action : Action}
    (haction : action ∈ plan.actions)
    (keeps : action.purge = false) : action.asset.assetId ∉ plan.purged := by
  intro hin
  obtain ⟨other, hother, hid⟩ := List.mem_map.mp hin
  obtain ⟨hmem, hpurge⟩ := List.mem_filter.mp hother
  obtain rfl := List.inj_on_of_nodup_map once hmem haction hid
  simp [keeps] at hpurge

namespace Leftover

variable (h : Leftover now plan assets assets')
include h

/-- What is available later was available before, and the plan did not touch it. -/
theorem available {a : Asset} (ha : a ∈ plan'.available (g.members assets')) :
    a ∈ plan.available (g.members assets) := by
  obtain ⟨hmember, hlive, -⟩ := Plan.mem_available.mp ha
  rcases h.origin a (SweptGroup.members_subset hmember) with ⟨hmem, hfree⟩ | ⟨action, -, -, -, rfl⟩
  · exact Plan.mem_available.mpr
      ⟨SweptGroup.mem_members_of_same hmember hmem rfl rfl, hlive, hfree⟩
  · exact (action.result_state now hlive).elim

/-- The available bytes of a group do not grow. -/
theorem sizes_le : sumSizes (plan'.available (g.members assets')) ≤
    sumSizes (plan.available (g.members assets)) := by
  have hids : DistinctIds (plan'.available (g.members assets')) := h.distinct'.members.filter _
  refine sum_le_of_matched hids (fun a ha => ?_) fun a ha => ⟨a, h.available ha, rfl, le_refl _⟩
  exact h.size_nonneg a (SweptGroup.members_subset (Plan.mem_available.mp ha).1)

theorem bytes_nonneg' {a : Asset} (ha : a ∈ assets') : 0 ≤ a.physicalBytes := by
  rcases h.origin a ha with ⟨hmem, -⟩ | ⟨action, -, -, hlisted, rfl⟩
  · exact h.bytes_nonneg a hmem
  · rw [(action.result_same now).2.2.2]
    exact h.bytes_nonneg _ hlisted

/-- The bytes of some assets of a space do not grow, when those that are counted later were counted
before. -/
theorem bytes_le {counted counted' : Asset → Prop} [DecidablePred counted] [DecidablePred counted']
    (kept : ∀ a ∈ assets, a.assetId ∉ plan.selected → counted' a → counted a)
    (expired : ∀ action ∈ plan.actions, action.purge = false → counted' (action.result now) →
      counted action.asset) :
    sumPhysical ((g.members assets').filter fun a => counted' a) ≤
      sumPhysical ((g.members assets).filter fun a => counted a) := by
  have hids : DistinctIds ((g.members assets').filter fun a => counted' a) :=
    h.distinct'.members.filter _
  refine sum_le_of_matched hids (fun a ha => ?_) fun a' ha' => ?_
  · exact h.bytes_nonneg a (SweptGroup.members_subset (List.mem_of_mem_filter ha))
  · obtain ⟨hmember, hcounted⟩ := List.mem_filter.mp ha'
    rcases h.origin a' (SweptGroup.members_subset hmember) with
      ⟨hmem, hfree⟩ | ⟨action, haction, hkeeps, hlisted, rfl⟩
    · have hbefore := kept a' hmem hfree (of_decide_eq_true hcounted)
      exact ⟨a', List.mem_filter.mpr ⟨SweptGroup.mem_members_of_same hmember hmem rfl rfl,
        decide_eq_true hbefore⟩, rfl, le_refl _⟩
    · obtain ⟨hid, hspace, hpartition, hbytes⟩ := action.result_same now
      have hbefore := expired action haction hkeeps (of_decide_eq_true hcounted)
      exact ⟨action.asset, List.mem_filter.mpr
        ⟨SweptGroup.mem_members_of_same hmember hlisted hspace hpartition,
          decide_eq_true hbefore⟩, hid.symm, hbytes.le⟩

/-- What is not to be purged does not grow. -/
theorem physical_le (once : plan.selected.Nodup) :
    sumPhysical ((g.members assets').filter fun a => a.assetId ∉ plan'.purged) ≤
      sumPhysical ((g.members assets).filter fun a => a.assetId ∉ plan.purged) :=
  h.bytes_le (fun _ _ hfree _ hin => hfree (List.map_subset _ List.filter_sublist.subset hin))
    fun _ haction hkeeps _ => Plan.not_mem_purged once haction hkeeps

/-- The occupancy of a space does not grow. -/
theorem occupancy_le :
    sumPhysical ((g.members assets').filter fun a => a.payloadDeletedAt = none) ≤
      sumPhysical ((g.members assets).filter fun a => a.payloadDeletedAt = none) :=
  h.bytes_le (fun _ _ _ hunpurged => hunpurged) fun action _ hkeeps hunpurged => by
    simpa [Action.result, hkeeps] using hunpurged

theorem ratioFits (hratio : g.RatioFits arith assets) : g.RatioFits arith assets' := by
  cases g with
  | partition s p => trivial
  | bucket s capacity =>
    have hle := h.occupancy_le (g := .bucket s capacity)
    have hnonneg : 0 ≤ sumPhysical (((SweptGroup.bucket s capacity).members assets').filter
        fun a => a.payloadDeletedAt = none) := List.sum_nonneg fun n hn => by
      obtain ⟨a, ha, rfl⟩ := List.mem_map.mp hn
      exact h.bytes_nonneg' (SweptGroup.members_subset (List.mem_of_mem_filter ha))
    refine arith.finite_mono _ _ ?_ hratio
    rw [abs_div, abs_div]
    refine div_le_div_of_nonneg_right ?_ (abs_nonneg _)
    exact abs_le_abs_of_nonneg (by exact_mod_cast hnonneg) (by exact_mod_cast hle)

end Leftover

/-! ### The second plan -/

/-- A group that calls for evictions still would if it held more. -/
theorem SweptGroup.Triggered.mono (ht : g.Triggered arith policy quota assets' plan')
    (sizes : sumSizes (plan'.available (g.members assets')) ≤
      sumSizes (plan.available (g.members assets)))
    (physical : sumPhysical ((g.members assets').filter fun a => a.assetId ∉ plan'.purged) ≤
      sumPhysical ((g.members assets).filter fun a => a.assetId ∉ plan.purged)) :
    g.Triggered arith policy quota assets plan := by
  cases g with
  | partition s p =>
    obtain ⟨henabled, bytes, hbytes, hused, htrigger⟩ := ht
    exact ⟨henabled, bytes, hbytes, hused.trans_le sizes, htrigger.trans (by exact_mod_cast sizes)⟩
  | bucket s capacity => exact ⟨ht.1, ht.2.trans (by exact_mod_cast physical)⟩

/-- After a plan, a group of it was not triggered before, is at its target, or has nothing left that
may be evicted. -/
theorem planFor_settles (distinct : DistinctIds assets)
    (nonneg : ∀ a ∈ assets, 0 ≤ a.sizeBytes.getD 0)
    (hg : g ∈ sweptGroups policy assets) (hp : planFor arith policy now quota assets = plan) :
    (∃ before, before.Extends plan ∧ ¬g.Triggered arith policy quota assets before) ∨
      (sumSizes (plan.available (g.members assets)) : Rat) ≤ g.target arith policy quota ∨
      ∀ a ∈ plan.available (g.members assets), a.evictionPolicy ≠ .inherit := by
  obtain ⟨first, rest, hsplit⟩ := List.append_of_mem hg
  have hplan : plan = planUpto arith policy now quota assets ((first ++ [g]) ++ rest) := by
    rw [← hp, planFor, hsplit, List.append_assoc]
    rfl
  have hlast : (planUpto arith policy now quota assets (first ++ [g])).Extends plan :=
    hplan ▸ planUpto_extends distinct
  by_cases ht : g.Triggered arith policy quota assets (planUpto arith policy now quota assets first)
  · right
    obtain ⟨order, taken, hr, -⟩ := Plan.visit_triggered now distinct ht
    rw [← planUpto_concat] at hr
    rcases hr.relief.enough with hlow | hall
    · left
      have hleft := hr.left
      rw [sum_bytes] at hlow
      have hless : sumSizes (plan.available (g.members assets)) ≤
          sumSizes ((planUpto arith policy now quota assets (first ++ [g])).available
            (g.members assets)) :=
        sumSizes_le hlast.available fun a ha =>
          nonneg a (SweptGroup.members_subset (Plan.mem_available.mp ha).1)
      have hbound : ((sumSizes ((planUpto arith policy now quota assets (first ++ [g])).available
          (g.members assets)) : Int) : Rat) ≤ g.target arith policy quota := by
        rw [hleft]
        exact_mod_cast hlow
      exact le_trans (by exact_mod_cast hless) hbound
    · right
      intro a ha hinherits
      obtain ⟨hmember, hlive, hfree⟩ := Plan.mem_available.mp (hlast.available.subset ha)
      rw [hr.selected, List.mem_append, not_or] at hfree
      have horder : a ∈ order := hr.candidates.mem_iff.mpr (by
        simpa [hinherits] using Plan.mem_available.mpr ⟨hmember, hlive, hfree.1⟩)
      exact hfree.2 (List.mem_map_of_mem (hall ▸ horder))
  · exact .inl ⟨_, (planUpto_concat first g ▸ Plan.visit_extends distinct).trans hlast, ht⟩

/-- The counters have the same limits. -/
def SameQuotas (quota quota' : Text → Text → PartitionQuota) : Prop :=
  ∀ space p, (quota' space p).quotaBytes = (quota space p).quotaBytes ∧
    (quota' space p).evictionSweepEnabled = (quota space p).evictionSweepEnabled

theorem SweptGroup.Triggered.of_same (same : SameQuotas quota quota')
    (ht : g.Triggered arith policy quota' assets plan) :
    g.Triggered arith policy quota assets plan := by
  cases g with
  | partition s p =>
    obtain ⟨henabled, bytes, hbytes, hrest⟩ := ht
    exact ⟨(same s p).2.symm.trans henabled, bytes, (same s p).1.symm.trans hbytes, hrest⟩
  | bucket s capacity => exact ht

theorem SameQuotas.target (same : SameQuotas quota quota') :
    g.target arith policy quota' = g.target arith policy quota := by
  cases g with
  | partition s p => simp only [SweptGroup.target, (same s p).1]
  | bucket s capacity => rfl

theorem mem_sweptGroups_partition {s p : Text} : .partition s p ∈ sweptGroups policy assets ↔
    evictable s = true ∧ ∃ a ∈ assets, a.space = s ∧ a.partitionId = p := by
  simp [sweptGroups, sweptPartitions, and_comm]

/-- A relief that starts at its target takes nothing. -/
theorem Relieved.eq_nil {target : Rat} {reason : Text} {order taken : List Asset}
    (hr : Relieved arith now target reason group plan plan' order taken)
    (low : (sumSizes (plan.available group) : Rat) ≤ target) : taken = [] := by
  cases taken with
  | nil => rfl
  | cons a rest =>
    have habove := hr.relief.needed [] List.nil_prefix (List.cons_ne_nil a rest).symm
    exact absurd habove (by simpa using low)

namespace Leftover

variable (h : Leftover now plan assets assets')
include h

theorem mem_sweptGroups (hg : g ∈ sweptGroups policy assets') : g ∈ sweptGroups policy assets := by
  cases g with
  | partition s p =>
    obtain ⟨hmay, a, ha, hs, hpid⟩ := mem_sweptGroups_partition.mp hg
    refine mem_sweptGroups_partition.mpr ⟨hmay, ?_⟩
    rcases h.origin a ha with ⟨hmem, -⟩ | ⟨action, -, -, hlisted, rfl⟩
    · exact ⟨a, hmem, hs, hpid⟩
    · obtain ⟨-, hspace, hpartition, -⟩ := action.result_same now
      exact ⟨action.asset, hlisted, hspace.symm.trans hs, hpartition.symm.trans hpid⟩
  | bucket s capacity => simpa [sweptGroups] using hg

variable (proper : plan.Proper arith policy now quota assets)
  (hp : planFor arith policy now quota assets = plan)
include proper

/-- When every grace period is positive, nothing is due again at the same instant. -/
theorem due_eq_none (grace : ∀ space ∈ storageBuckets, 0 < policy.graceSeconds space)
    (spaces : ∀ a ∈ assets, a.space ∈ storageBuckets) {a : Asset} (ha : a ∈ assets') :
    dueAction arith policy now a = none := by
  rcases h.origin a ha with ⟨hmem, hfree⟩ | ⟨action, -, hkeeps, hlisted, rfl⟩
  · by_contra hdue
    exact hfree (proper.covers a hmem hdue)
  · have hpositive := grace _ (spaces _ hlisted)
    have hwait : ¬((policy.graceSeconds action.asset.space : Int) : Rat) ≤
        arith.totalSeconds now now := by
      simp only [Arithmetic.totalSeconds, sub_self, Int.cast_zero, zero_div,
        arith.round_zero, not_le]
      exact_mod_cast hpositive
    simp only [Action.result, hkeeps, dueAction]
    exact if_neg hwait

include hp

/-- The second plan evicts nothing from a group. -/
theorem visit (same : SameQuotas quota quota') (hg : g ∈ sweptGroups policy assets') :
    (plan'.visit arith policy now quota' assets' g).actions = plan'.actions := by
  by_cases ht : g.Triggered arith policy quota' assets' plan'
  · obtain ⟨order, taken, hr, -⟩ := Plan.visit_triggered now h.distinct' ht
    rw [same.target] at hr
    have hnone : taken = [] := by
      rcases planFor_settles h.distinct h.size_nonneg (h.mem_sweptGroups hg) hp with
        ⟨before, hbefore, hidle⟩ | hlow | hexempt
      · have hless : sumSizes (plan.available (g.members assets)) ≤
            sumSizes (before.available (g.members assets)) :=
          sumSizes_le hbefore.available fun a ha =>
            h.size_nonneg a (SweptGroup.members_subset (Plan.mem_available.mp ha).1)
        refine (hidle ((ht.of_same same).mono (h.sizes_le.trans hless) ?_)).elim
        rw [← hbefore.purged]
        exact h.physical_le proper.once
      · exact hr.eq_nil (le_trans (by exact_mod_cast h.sizes_le) hlow)
      · refine List.eq_nil_iff_forall_not_mem.mpr fun a ha => ?_
        obtain ⟨havailable, hinherits⟩ := hr.mem ha
        exact hexempt a (h.available havailable) hinherits
    simpa [hnone] using hr.actions
  · exact (Plan.visit_idle now ht).1

/-- The second plan has nothing but what is due by age. -/
theorem planFor_actions (same : SameQuotas quota quota') :
    (planFor arith policy now quota' assets').actions =
      (duePlan arith policy now assets').actions := by
  have hupto : ∀ groups, (∀ g ∈ groups, g ∈ sweptGroups policy assets') →
      (planUpto arith policy now quota' assets' groups).actions =
        (duePlan arith policy now assets').actions := by
    intro groups hgroups
    induction groups using List.reverseRecOn with
    | nil => rfl
    | append_singleton groups g ih =>
      rw [planUpto_concat, h.visit proper hp same (hgroups g (by simp))]
      exact ih fun g' hg' => hgroups g' (by simp [hg'])
  exact hupto _ fun _ hg => hg

/-- What the second plan converts has floats, because what the first plan converts has. -/
theorem weighable (same : SameQuotas quota quota')
    (fits : ∀ g ∈ sweptGroups policy assets, g.Weighable arith policy now quota assets)
    (hg : g ∈ sweptGroups policy assets') : g.Weighable arith policy now quota' assets' := by
  have hextends : (duePlan arith policy now assets).Extends plan := by
    have hupto := @planUpto_extends arith policy now quota assets h.distinct []
      (sweptGroups policy assets)
    exact hp ▸ hupto
  have hlive : ∀ a ∈ g.live now assets', a ∈ g.live now assets := fun a ha => by
    rw [← @duePlan_available arith policy _ _ _ h.distinct'] at ha
    rw [← @duePlan_available arith policy _ _ _ h.distinct]
    exact hextends.available.subset (h.available ha)
  have hused : sumSizes (g.live now assets') ≤ sumSizes (g.live now assets) := by
    rw [← @duePlan_available arith policy _ _ _ h.distinct',
      ← @duePlan_available arith policy _ _ _ h.distinct]
    exact h.sizes_le.trans (sumSizes_le hextends.available fun a ha =>
      h.size_nonneg a (SweptGroup.members_subset (Plan.mem_available.mp ha).1))
  have hunpurged : sumPhysical (g.unpurged arith policy now assets') ≤
      sumPhysical (g.unpurged arith policy now assets) := by
    rw [← duePlan_unpurged h.distinct', ← duePlan_unpurged h.distinct, ← hextends.purged]
    exact h.physical_le proper.once
  have hsizes : g.SizesFit arith now assets → g.SizesFit arith now assets' := fun hfit a ha =>
    hfit a (hlive a ha)
  have hfits := fits g (h.mem_sweptGroups hg)
  cases g with
  | partition s p =>
    intro henabled bytes hbytes hpositive
    obtain ⟨hfinite, htrigger⟩ := hfits ((same s p).2.symm.trans henabled) bytes
      ((same s p).1.symm.trans hbytes) (hpositive.trans_le hused)
    exact ⟨hfinite, fun hreached => hsizes (htrigger (hreached.trans (by exact_mod_cast hused)))⟩
  | bucket s capacity =>
    obtain ⟨hratio, hlimit⟩ := hfits
    refine ⟨h.ratioFits hratio, fun hmay => ?_⟩
    obtain ⟨hfinite, htrigger⟩ := hlimit hmay
    exact ⟨hfinite, fun hreached =>
      hsizes (htrigger (hreached.trans (by exact_mod_cast hunpurged)))⟩

end Leftover

/-! ### Sweeping twice -/

section Sweeps

variable {env : Env} {grace : Int} {calls : List (Op × (Nat → Time))}
  {s s' : GuardState} {a : Asset}

theorem Runs.bytes_nonneg {r : Registry} (h : Runs env (Registry.initial grace) calls r)
    (ha : a ∈ r.listed) : 0 ≤ a.physicalBytes := by
  obtain ⟨⟨id, get⟩, -⟩ := mem_listed.mp ha
  have hrow := h.sound.1.row_valid id _ (Registry.books_get get)
  unfold AssetRow.physicalBytes
  cases hsize : a.sizeBytes with
  | some n => exact hrow.size_nonneg n hsize
  | none =>
    cases hreserved : a.reservedBytes with
    | some n => exact hrow.reserved_nonneg n hreserved
    | none => exact le_refl 0

/-- A sweep leaves the assets that it expired and those that it did not touch. -/
theorem Swept.leftover (h : Swept env now plan.actions s s')
    (hs : Runs env (Registry.initial grace) calls s.reg)
    (hp : plan.Proper arith policy now s.reg.counters s.reg.listed) :
    Leftover now plan s.reg.listed s'.reg.listed := by
  obtain ⟨more, hmore⟩ := h.leads
  have hs' := hs.append hmore
  refine ⟨hs.sound.listed_distinct, hs'.sound.listed_distinct, fun _ => hs.size_nonneg,
    fun _ => hs.bytes_nonneg, fun a' ha' => ?_⟩
  obtain ⟨⟨id, get⟩, hunpurged⟩ := mem_listed.mp ha'
  by_cases hdone : ∃ action ∈ plan.actions, action.asset.assetId = id
  · obtain ⟨action, haction, rfl⟩ := hdone
    obtain rfl := Option.some.inj (get.symm.trans (h.changed action haction))
    obtain ⟨before, after, hsplit⟩ := List.append_of_mem haction
    have hlisted := (hp.warranted before action after hsplit).asset.1
    refine .inr ⟨action, haction, ?_, hlisted, rfl⟩
    by_contra hpurge
    have hpurges : action.purge = true := by simpa using hpurge
    simp [Action.result, hpurges] at hunpurged
  · have hkept := h.kept id fun action haction hid => hdone ⟨action, haction, hid⟩
    refine .inl ⟨mem_listed.mpr ⟨⟨id, hkept ▸ get⟩, hunpurged⟩, ?_⟩
    rw [hs'.filed id a' get]
    exact fun hin => hdone (List.mem_map.mp hin)

/-- After an applied sweep, planning again at the same instant evicts nothing for a quota or for
pressure; when every grace period is positive it plans nothing at all. This is so if and only if the
limits and the sizes that the planner converts have doubles. -/
theorem sweep_settles (h : Runs env (Registry.initial grace) calls s.reg) (policy : SweepPolicy)
    (given : Option Time) :
    (∃ report s' plan', alone (runSweep .double policy false given) s = .ok report s' ∧
      alone (planSweep .double policy (given.getD (s.clock 0))) s' = .ok plan' s' ∧
      (∀ action ∈ plan'.actions,
        action.reason ≠ "quota_lfu".toList ∧ action.reason ≠ "pressure_lfu".toList) ∧
      ((∀ space ∈ storageBuckets, 0 < policy.graceSeconds space) → plan'.actions = [])) ↔
    ∀ g ∈ sweptGroups policy s.reg.listed, g.Weighable .double policy (given.getD (s.clock 0))
      s.reg.counters s.reg.listed := by
  have hdistinct := h.sound.listed_distinct
  refine ⟨?_, fun weighable => ?_⟩
  · rintro ⟨report, s', plan', hrun, -⟩
    obtain ⟨plan, hplan⟩ := runSweep_plans h.sound hrun
    exact (feasible_iff hdistinct).mp ((planSweep_eq_ok h.sound).mp hplan).1
  have feasible := (feasible_iff hdistinct).mpr weighable
  have hproper := planFor_proper hdistinct feasible
  obtain ⟨s', hrun, hswept⟩ := runSweep_alone h policy given
    ((planSweep_eq_ok h.sound).mpr ⟨feasible, rfl, rfl⟩)
  have hleft := hswept.leftover h hproper
  obtain ⟨more, hmore⟩ := hswept.leads
  have hsound := (h.append hmore).sound
  have hsame : SameQuotas s.reg.counters s'.reg.counters := fun space p => hswept.triggers space _
  have hagain := (feasible_iff hsound.listed_distinct).mpr fun g hg =>
    hleft.weighable hproper rfl hsame weighable hg
  have hactions := hleft.planFor_actions hproper rfl hsame
  refine ⟨_, s', _, hrun, (planSweep_eq_ok hsound).mpr ⟨hagain, rfl, rfl⟩, fun action haction => ?_,
    fun hgrace => ?_⟩
  · rw [hactions] at haction
    obtain ⟨a, -, hdue⟩ := mem_duePlan.mp haction
    rcases dueAction_reason hdue with hreason | hreason <;> simp [hreason]
  · have hspaces : ∀ a ∈ s.reg.listed, a.space ∈ storageBuckets := fun a ha => by
      obtain ⟨⟨id, get⟩, -⟩ := mem_listed.mp ha
      exact (h.sound.1.row_valid id _ (Registry.books_get get)).space_mem
    rw [hactions]
    refine List.eq_nil_iff_forall_not_mem.mpr fun action haction => ?_
    obtain ⟨a, ha, hdue⟩ := mem_duePlan.mp haction
    simp [hleft.due_eq_none hproper hgrace hspaces ha] at hdue

end Sweeps

/-- Three bytes for the cache. -/
def tightPolicy : SweepPolicy where
  __ := SweepPolicy.standard
  capacityBytes := Dict.empty.set "cache".toList 3
  capacity_valid space bytes h := by
    rw [Dict.get_set] at h
    split at h
    · cases h
      subst_vars
      decide
    · simp at h

/-- An upload of three bytes, a day later. -/
def crowded : GuardState := { orphaned with reg := uploaded, clock := fun _ => 86400000000 }

theorem sweep_settles_crowded : ∃ report s' plan',
    alone (runSweep .double tightPolicy false none) crowded = .ok report s' ∧ report.applied = 1 ∧
      alone (planSweep .double tightPolicy 86400000000) s' = .ok plan' s' ∧ plan'.actions = [] := by
  obtain ⟨report, s', plan', hrun, hplan, -, hnone⟩ :=
    (sweep_settles (s := crowded) uploaded_runs tightPolicy none).mpr (by decide +kernel)
  obtain ⟨plan, hplanned⟩ := runSweep_plans (s := crowded) uploaded_runs.sound hrun
  obtain ⟨s1, hrun', -⟩ := runSweep_alone (s := crowded) uploaded_runs tightPolicy none hplanned
  obtain ⟨-, rfl, -⟩ := (planSweep_eq_ok (s := crowded) uploaded_runs.sound).mp hplanned
  have happlied : (planFor .double tightPolicy 86400000000 crowded.reg.counters
      crowded.reg.listed).report.applied = 1 := by decide +kernel
  obtain ⟨rfl, rfl⟩ : _ = report ∧ _ = s' := by
    have := hrun'.symm.trans hrun
    simpa using this
  exact ⟨_, _, plan', hrun, happlied, hplan, hnone (by decide)⟩

/-- With a capacity of `2 ^ 1024` bytes a sweep raises, and planning again raises too. -/
theorem sweep_unsettled : ∃ e s' e' s'',
    alone (runSweep .double boundlessPolicy false none) crowded = .error e s' ∧
      e.cls = .overflowError ∧
      s'.reg.assets.get "a1".toList = crowded.reg.assets.get "a1".toList ∧
      alone (planSweep .double boundlessPolicy 86400000000) s' = .error e' s'' := by
  have hraises : raises (fun e s' => e.cls == .overflowError &&
      s'.reg.assets.get "a1".toList == crowded.reg.assets.get "a1".toList &&
      raises (fun _ _ => true) (alone (planSweep .double boundlessPolicy 86400000000) s'))
      (alone (runSweep .double boundlessPolicy false none) crowded) = true := by
    decide +kernel
  obtain ⟨e, s', hrun, hfacts⟩ := exists_error_of_raises hraises
  simp only [Bool.and_eq_true, beq_iff_eq] at hfacts
  obtain ⟨e', s'', hplan, -⟩ := exists_error_of_raises hfacts.2
  exact ⟨e, s', e', s'', hrun, hfacts.1.1, hfacts.1.2, hplan⟩

end AssetStore
