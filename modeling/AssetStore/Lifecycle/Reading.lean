import AssetStore.Lifecycle.Planning

/-! What the planner returns. It reads the listing and the counters, and it raises when it converts
a number that is too large for a float. Whether it does is decided by the listing, before any
eviction: by the limits of the groups that are measured, and by the sizes in the groups that are
relieved. -/

namespace AssetStore

open Lib

variable {arith : Arithmetic} {policy : SweepPolicy} {now : Time}
  {quota : Text → Text → PartitionQuota} {assets group : List Asset} {plan plan' : Plan}
  {g : SweptGroup} {groups : List SweptGroup}

/-! ### Looks at groups -/

/-- A look at a group, as the planner takes it. -/
def Plan.look (arith : Arithmetic) (policy : SweepPolicy) (now : Time)
    (quota : Text → Text → PartitionQuota) (assets : List Asset) (plan : Plan) :
    SweptGroup → Except Err Plan
  | .partition s p => plan.evictQuota arith policy now assets (s, p) (quota s p)
  | .bucket s capacity => plan.evictPressure arith policy now assets s capacity

theorem convert_eq_ok {n : Int} {u : Unit} :
    arith.convert n = .ok u ↔ arith.finite (n : Rat) = true := by
  simp [Arithmetic.convert, raiseIf_eq_ok]

theorem ratio_eq_ok {m n : Int} {x : Rat} : arith.ratio m n = .ok x ↔
    arith.finite ((m : Rat) / n) = true ∧ arith.round ((m : Rat) / n) = x := by
  unfold Arithmetic.ratio
  rw [except_bind_eq_ok]
  simp [raiseIf_eq_ok]

theorem forM_convert_eq_ok {sizes : Asset → Int} : ∀ {l : List Asset} {u : Unit},
    (forM l fun a => arith.convert (sizes a)) = .ok u ↔
      ∀ a ∈ l, arith.finite (sizes a : Rat) = true
  | [], u => by simp
  | a :: l, u => by
    rw [List.forM_cons, except_bind_eq_ok, List.forall_mem_cons]
    simp [convert_eq_ok, forM_convert_eq_ok]

theorem Plan.evict_eq_ok {target : Rat} {reason space : Text} :
    plan.evict arith now group target reason space = .ok plan' ↔
      (∀ a ∈ plan.inheriting group, arith.finite (a.sizeBytes.getD 0 : Int) = true) ∧
        plan.relieve arith now group target reason space = plan' := by
  unfold evict
  rw [except_bind_eq_ok]
  simp [forM_convert_eq_ok]

/-- The part of a look after the ratio: a limit that is measured is converted, and a group that is
triggered is relieved. -/
theorem measure_eq_ok {measured triggers : Prop} [Decidable measured] [Decidable triggers] {n : Int}
    {target : Rat} {reason space : Text} :
    (if measured then do
        arith.convert n
        if triggers then plan.evict arith now group target reason space else return plan
      else return plan) = .ok plan' ↔
      ((measured → arith.finite (n : Rat) = true) ∧ (measured ∧ triggers →
        ∀ a ∈ plan.inheriting group, arith.finite (a.sizeBytes.getD 0 : Int) = true)) ∧
      (measured ∧ triggers → plan.relieve arith now group target reason space = plan') ∧
        (¬(measured ∧ triggers) → plan = plan') := by
  by_cases hm : measured
  · rw [if_pos hm, except_bind_eq_ok]
    by_cases ht : triggers <;> simp [hm, ht, convert_eq_ok, Plan.evict_eq_ok, and_assoc]
  · simp [hm]

theorem Plan.visit_eq_iff : plan.visit arith policy now quota assets g = plan' ↔
    (g.Triggered arith policy quota assets plan →
      ({ plan with ratios := plan.ratios ++ g.ratios arith assets } : Plan).relieve arith now
        (g.members assets) (g.target arith policy quota) g.reason g.space = plan') ∧
      (¬g.Triggered arith policy quota assets plan →
        { plan with ratios := plan.ratios ++ g.ratios arith assets } = plan') := by
  by_cases ht : g.Triggered arith policy quota assets plan <;> simp [visit, ht]

/-- A look goes on with the plan, unless it converts what has no float. -/
theorem Plan.look_eq_ok : plan.look arith policy now quota assets g = .ok plan' ↔
    g.Fits arith policy quota assets plan ∧ plan.visit arith policy now quota assets g = plan' := by
  rw [visit_eq_iff, SweptGroup.fits_iff]
  cases g with
  | partition s p =>
    have hsame : { plan with ratios := plan.ratios ++
        (SweptGroup.partition s p).ratios arith assets } = plan := by
      simp [SweptGroup.ratios]
    rw [hsame]
    cases hbytes : (quota s p).quotaBytes with
    | none =>
      simp only [look, evictQuota, hbytes]
      simp [SweptGroup.RatioFits, SweptGroup.Measured, SweptGroup.Triggered, hbytes]
    | some bytes =>
      have htriggered : (SweptGroup.partition s p).Triggered arith policy quota assets plan ↔
          ((quota s p).evictionSweepEnabled ∧
            0 < sumSizes (plan.available ((SweptGroup.partition s p).members assets))) ∧
          arith.times bytes policy.quotaTrigger ≤
            sumSizes (plan.available ((SweptGroup.partition s p).members assets)) := by
        simp [SweptGroup.Triggered, hbytes, and_assoc]
      have hlimit : ((SweptGroup.partition s p).Measured quota assets plan →
          (SweptGroup.partition s p).Convertible arith quota) ↔
          ((quota s p).evictionSweepEnabled ∧
            0 < sumSizes (plan.available ((SweptGroup.partition s p).members assets)) →
          arith.finite (bytes : Rat) = true) := by
        simp [SweptGroup.Measured, SweptGroup.Convertible, hbytes]
      have htarget : (SweptGroup.partition s p).target arith policy quota =
          arith.times bytes policy.quotaTarget := by
        simp [SweptGroup.target, hbytes]
      simp only [look, evictQuota, hbytes]
      rw [measure_eq_ok, htriggered, hlimit, htarget]
      constructor
      · rintro ⟨⟨hlimits, hsizes⟩, hvisit⟩
        exact ⟨⟨trivial, hlimits, hsizes⟩, hvisit⟩
      · rintro ⟨⟨-, hlimits, hsizes⟩, hvisit⟩
        exact ⟨⟨hlimits, hsizes⟩, hvisit⟩
  | bucket s capacity =>
    simp only [look, evictPressure]
    rw [except_bind_eq_ok]
    simp only [measure_eq_ok, ratio_eq_ok]
    constructor
    · rintro ⟨_, ⟨hratio, rfl⟩, ⟨hlimit, hsizes⟩, hvisit⟩
      exact ⟨⟨hratio, hlimit, hsizes⟩, hvisit⟩
    · rintro ⟨⟨hratio, hlimit, hsizes⟩, hvisit⟩
      exact ⟨_, ⟨hratio, rfl⟩, ⟨hlimit, hsizes⟩, hvisit⟩

/-- A run of looks goes on with the plan, unless one of them converts what has no float. -/
theorem looks_eq_ok : groups.foldlM (Plan.look arith policy now quota assets)
    (duePlan arith policy now assets) = .ok plan ↔
      Feasible arith policy now quota assets groups ∧
        planUpto arith policy now quota assets groups = plan := by
  induction groups using List.reverseRecOn generalizing plan with
  | nil =>
    have hnone : Feasible arith policy now quota assets [] := fun before g after hsplit => by
      simp at hsplit
    exact ⟨fun h => ⟨hnone, Except.ok.inj h⟩, fun h => congrArg Except.ok h.2⟩
  | append_singleton groups g ih =>
    rw [List.foldlM_append, except_bind_eq_ok, feasible_concat, planUpto_concat]
    simp only [ih, List.foldlM_cons, List.foldlM_nil, bind_pure, Plan.look_eq_ok]
    constructor
    · rintro ⟨_, ⟨hgroups, rfl⟩, hlast, hplan⟩
      exact ⟨⟨hgroups, hlast⟩, hplan⟩
    · rintro ⟨⟨hgroups, hlast⟩, hplan⟩
      exact ⟨_, ⟨hgroups, rfl⟩, hlast, hplan⟩

/-! ### Reading the registry -/

/-- What `list_assets` returns. -/
def Registry.listed (r : Registry) : List Asset :=
  r.assets.values.filter fun a => a.payloadDeletedAt = none

/-- What `get_partition_quota` returns. -/
def Registry.counters (r : Registry) (space partitionId : Text) : PartitionQuota :=
  r.partitionAt space ((normPart partitionId).getD partitionId)

theorem Sound.listed_distinct {r : Registry} (h : Sound r) : DistinctIds r.listed := by
  have hfiled : ∀ id a, r.assets.get id = some a → a.assetId = id := fun id a get =>
    h.1.row_filed id _ (Registry.books_get get)
  exact DistinctIds.filter (Dict.values_nodup_map hfiled) _

theorem mem_listed {r : Registry} {a : Asset} :
    a ∈ r.listed ↔ (∃ id, r.assets.get id = some a) ∧ a.payloadDeletedAt = none := by
  simp [Registry.listed, Dict.mem_values]

theorem evictQuotas_alone {s : GuardState} : ∀ {keys : List (Text × Text)} {plan : Plan},
    (∀ key ∈ keys, ∃ p, key.1 ∈ storageBuckets ∧ normPart key.2 = some p) →
    alone (evictQuotas arith policy now assets keys plan) s =
      attempt (keys.foldlM (fun plan key =>
        plan.evictQuota arith policy now assets key (s.reg.counters key.1 key.2)) plan) s
  | [], _, _ => rfl
  | key :: rest, plan, h => by
    obtain ⟨p, hspace, hp⟩ := h key List.mem_cons_self
    have hread : partitionQuota key.1 key.2 ⟨s.reg, s.clock⟩ =
        .ok (s.reg.counters key.1 key.2) ⟨s.reg, s.clock⟩ := by
      rw [partitionQuota_eq hspace hp]
      simp [Registry.counters, hp]
    have hquota : alone (registry (partitionQuota key.1 key.2)) s =
        .ok (s.reg.counters key.1 key.2) s := by
      rw [alone_registry, liftRegistry_eq_ok]
      exact ⟨_, hread, rfl⟩
    rw [evictQuotas, alone_bind]
    refine (bind_of_ok hquota).trans ?_
    rw [alone_bind, alone_check, List.foldlM_cons]
    refine bind_attempt rfl fun plan' => ?_
    exact evictQuotas_alone fun k hk => h k (List.mem_cons_of_mem _ hk)

/-- Alone, the planner looks at one group after the other, and leaves everything as it is. -/
theorem planSweep_alone (arith : Arithmetic) (policy : SweepPolicy) (now : Time) {s : GuardState}
    (h : Sound s.reg) : alone (planSweep arith policy now) s =
      attempt ((sweptGroups policy s.reg.listed).foldlM
        (Plan.look arith policy now s.reg.counters s.reg.listed)
        (duePlan arith policy now s.reg.listed)) s := by
  have hkeys : ∀ key ∈ sweptPartitions s.reg.listed, ∃ p,
      key.1 ∈ storageBuckets ∧ normPart key.2 = some p := by
    intro key hkey
    simp only [sweptPartitions, List.mem_mergeSort, List.mem_dedup, List.mem_filter,
      List.mem_map] at hkey
    obtain ⟨⟨a, ha, rfl⟩, -⟩ := hkey
    obtain ⟨⟨id, get⟩, -⟩ := mem_listed.mp ha
    have hrow := h.1.row_valid id _ (Registry.books_get get)
    obtain ⟨p, hp⟩ := hrow.partition_known
    exact ⟨p, hrow.space_mem, hp⟩
  have hlist : alone (registry listAssets) s = .ok s.reg.listed s := rfl
  have hquotas := @evictQuotas_alone arith policy now s.reg.listed s _
    (duePlan arith policy now s.reg.listed) hkeys
  rw [planSweep, alone_bind]
  refine (bind_of_ok hlist).trans ?_
  rw [alone_bind]
  simp only [sweptGroups, List.foldlM_append, List.foldlM_map]
  exact bind_attempt hquotas fun _ => rfl

/-- The planner returns the plan for what the registry lists, unless it converts what has no
float. -/
theorem planSweep_eq_ok {s s' : GuardState} (h : Sound s.reg) :
    alone (planSweep arith policy now) s = .ok plan s' ↔
      Feasible arith policy now s.reg.counters s.reg.listed (sweptGroups policy s.reg.listed) ∧
        planFor arith policy now s.reg.counters s.reg.listed = plan ∧ s = s' := by
  rw [planSweep_alone arith policy now h, attempt_eq_ok, looks_eq_ok, and_assoc]
  rfl

/-! ### Before any eviction -/

/-- The assets of a group that may be evicted or stay: available ones that are not past their
time. -/
def SweptGroup.live (now : Time) (assets : List Asset) (g : SweptGroup) : List Asset :=
  (g.members assets).filter fun a => a.state = .available ∧ ¬∃ t ∈ a.expiresAt, t ≤ now

/-- The assets of a group whose purge is not due. -/
def SweptGroup.unpurged (arith : Arithmetic) (policy : SweepPolicy) (now : Time)
    (assets : List Asset)
    (g : SweptGroup) : List Asset :=
  (g.members assets).filter fun a => ∀ action ∈ dueAction arith policy now a, action.purge = false

/-- The sizes that a sweep compares in the group have floats. -/
def SweptGroup.SizesFit (arith : Arithmetic) (now : Time) (assets : List Asset) (g : SweptGroup) :
    Prop :=
  ∀ a ∈ g.live now assets, a.evictionPolicy = .inherit →
    arith.finite (a.sizeBytes.getD 0 : Int) = true

/-- What a sweep converts for the group has floats. For a partition these are the limit, when it is
enabled and something is used, and the sizes, when the use reaches the trigger. For a space these
are the occupancy, the capacity of a space that may be evicted from, and the sizes, when what is not
to be purged reaches the trigger. -/
def SweptGroup.Weighable (arith : Arithmetic) (policy : SweepPolicy) (now : Time)
    (quota : Text → Text → PartitionQuota) (assets : List Asset) : SweptGroup → Prop
  | g@(partition s p) => (quota s p).evictionSweepEnabled → ∀ bytes ∈ (quota s p).quotaBytes,
      0 < sumSizes (g.live now assets) → arith.finite (bytes : Int) = true ∧
        (arith.times bytes policy.quotaTrigger ≤ sumSizes (g.live now assets) →
          g.SizesFit arith now assets)
  | g@(bucket s capacity) => g.RatioFits arith assets ∧ (evictable s →
      arith.finite capacity = true ∧ (arith.times capacity policy.pressureTrigger ≤
          sumPhysical (g.unpurged arith policy now assets) → g.SizesFit arith now assets))

instance (arith : Arithmetic) (now : Time) (assets : List Asset) (g : SweptGroup) :
    Decidable (g.SizesFit arith now assets) :=
  inferInstanceAs (Decidable (∀ a ∈ g.live now assets, a.evictionPolicy = .inherit → _))

instance (arith : Arithmetic) (policy : SweepPolicy) (now : Time)
    (quota : Text → Text → PartitionQuota) (assets : List Asset) :
    DecidablePred (SweptGroup.Weighable arith policy now quota assets)
  | .partition s p => inferInstanceAs (Decidable ((quota s p).evictionSweepEnabled →
      ∀ bytes ∈ (quota s p).quotaBytes, _ → _ ∧ (_ → SweptGroup.SizesFit ..)))
  | .bucket _ _ => inferInstanceAs (Decidable (_ = true ∧ (_ → _ ∧ (_ → SweptGroup.SizesFit ..))))

theorem dueAction_available {a : Asset} (h : a.state = .available) :
    dueAction arith policy now a = none ↔ ¬∃ t ∈ a.expiresAt, t ≤ now := by
  simp only [dueAction, h]
  split
  · simp only [*, reduceCtorEq, not_true_eq_false]
  · simp only [*, not_false_eq_true]

theorem duePlan_mem_selected (distinct : DistinctIds assets) {a : Asset} (ha : a ∈ assets) :
    a.assetId ∈ (duePlan arith policy now assets).selected ↔
      dueAction arith policy now a ≠ none := by
  constructor
  · intro hin
    obtain ⟨action, haction, hid⟩ := List.mem_map.mp hin
    obtain ⟨b, hb, hdue⟩ := mem_duePlan.mp haction
    rw [dueAction_asset hdue] at hid
    rw [← distinct.eq hb ha hid, hdue]
    exact Option.some_ne_none _
  · exact duePlan_covers ha

theorem duePlan_mem_purged (distinct : DistinctIds assets) {a : Asset} (ha : a ∈ assets) :
    a.assetId ∉ (duePlan arith policy now assets).purged ↔
      ∀ action ∈ dueAction arith policy now a, action.purge = false := by
  constructor
  · intro hout action hdue
    by_contra hpurge
    refine hout (List.mem_map.mpr ⟨action, List.mem_filter.mpr ⟨?_, by simpa using hpurge⟩, ?_⟩)
    · exact mem_duePlan.mpr ⟨a, ha, hdue⟩
    · rw [dueAction_asset hdue]
  · rintro hkeeps hin
    obtain ⟨action, haction, hid⟩ := List.mem_map.mp hin
    obtain ⟨hplanned, hpurge⟩ := List.mem_filter.mp haction
    obtain ⟨b, hb, hdue⟩ := mem_duePlan.mp hplanned
    rw [dueAction_asset hdue] at hid
    obtain rfl := distinct.eq hb ha hid
    rw [hkeeps action hdue] at hpurge
    cases hpurge

theorem duePlan_available (distinct : DistinctIds assets) :
    (duePlan arith policy now assets).available (g.members assets) = g.live now assets := by
  refine List.filter_congr fun a ha => decide_eq_decide.mpr (and_congr_right fun hlive => ?_)
  rw [duePlan_mem_selected distinct (SweptGroup.members_subset ha), not_not,
    dueAction_available hlive]

theorem duePlan_unpurged (distinct : DistinctIds assets) :
    ((g.members assets).filter fun a => a.assetId ∉ (duePlan arith policy now assets).purged) =
      g.unpurged arith policy now assets :=
  List.filter_congr fun _ ha =>
    decide_eq_decide.mpr (duePlan_mem_purged distinct (SweptGroup.members_subset ha))

/-- What a look at the group converts before any eviction. -/
theorem fits_due_iff (distinct : DistinctIds assets) :
    g.Fits arith policy quota assets (duePlan arith policy now assets) ↔
      g.Weighable arith policy now quota assets := by
  have hlive := @duePlan_available arith policy now assets g distinct
  have hsizes : (∀ a ∈ (duePlan arith policy now assets).inheriting (g.members assets),
      arith.finite (a.sizeBytes.getD 0 : Int) = true) ↔ g.SizesFit arith now assets := by
    rw [Plan.inheriting, hlive]
    simp [SweptGroup.SizesFit]
  rw [SweptGroup.fits_iff, hsizes]
  cases g with
  | partition s p =>
    cases hbytes : (quota s p).quotaBytes with
    | none => simp [SweptGroup.RatioFits, SweptGroup.Measured, SweptGroup.Triggered,
        SweptGroup.Weighable, hbytes]
    | some bytes =>
      simp only [SweptGroup.RatioFits, SweptGroup.Measured, SweptGroup.Triggered,
        SweptGroup.Convertible, SweptGroup.Weighable, hlive, hbytes, Option.mem_def,
        Option.some.injEq, forall_eq', exists_eq_left', ne_eq, reduceCtorEq, not_false_eq_true,
        true_and, and_imp]
      exact ⟨fun h henabled hused => ⟨h.1 henabled hused, h.2 henabled hused⟩,
        fun h => ⟨fun henabled hused => (h henabled hused).1,
          fun henabled hused => (h henabled hused).2⟩⟩
  | bucket s capacity =>
    simp only [SweptGroup.Measured, SweptGroup.Triggered, SweptGroup.Convertible,
      SweptGroup.Weighable, duePlan_unpurged distinct, and_imp]
    exact and_congr_right fun _ => forall_and.symm

/-! ### The looks before a group -/

/-- Before a partition come other partitions only. -/
theorem sweptGroups_ordered : (sweptGroups policy assets).Pairwise fun g g' =>
    ∀ s p, g' = .partition s p → ∃ s' p', g = .partition s' p' ∧ (s', p') ≠ (s, p) := by
  refine List.pairwise_append.mpr ⟨?_, ?_, ?_⟩
  · have hnodup : (sweptPartitions assets).Nodup :=
      (List.mergeSort_perm _ _).nodup_iff.mpr (List.nodup_dedup _)
    refine List.pairwise_map.mpr (hnodup.imp ?_)
    rintro ⟨s', p'⟩ ⟨s, p⟩ hne _ _ heq
    cases heq
    exact ⟨s', p', rfl, hne⟩
  · exact List.pairwise_map.mpr (List.pairwise_of_forall fun _ _ _ _ heq => by cases heq)
  · intro g _ g' hg' s p heq
    obtain ⟨c, -, rfl⟩ := List.mem_map.mp hg'
    cases heq

/-- A look at one group leaves what is available of a group that has nothing in common with it. -/
theorem Plan.visit_apart (distinct : DistinctIds assets) {g' : SweptGroup}
    (apart : ∀ a ∈ g'.members assets, a ∉ g.members assets) :
    (plan.visit arith policy now quota assets g').available (g.members assets) =
      plan.available (g.members assets) := by
  by_cases ht : g'.Triggered arith policy quota assets plan
  · obtain ⟨order, taken, hr, -⟩ := Plan.visit_triggered now distinct ht
    refine List.filter_congr fun a ha => decide_eq_decide.mpr (and_congr_right fun _ => ?_)
    rw [hr.selected, List.mem_append, not_or, and_iff_left_iff_imp]
    rintro - hin
    obtain ⟨b, hb, hid⟩ := List.mem_map.mp hin
    have hmember := (Plan.mem_available.mp (hr.mem hb).1).1
    obtain rfl := distinct.eq (SweptGroup.members_subset hmember) (SweptGroup.members_subset ha) hid
    exact apart b hmember ha
  · refine List.filter_congr fun a _ => decide_eq_decide.mpr (and_congr_right fun _ => ?_)
    rw [selected, (Plan.visit_idle now ht).1, selected]

/-- What is available of a partition when its turn comes was available before any eviction. -/
theorem planUpto_available (distinct : DistinctIds assets) {s p : Text}
    (others : ∀ g ∈ groups, ∃ s' p', g = .partition s' p' ∧ (s', p') ≠ (s, p)) :
    (planUpto arith policy now quota assets groups).available
        ((SweptGroup.partition s p).members assets) =
      (duePlan arith policy now assets).available
        ((SweptGroup.partition s p).members assets) := by
  induction groups using List.reverseRecOn with
  | nil => rfl
  | append_singleton groups g ih =>
    rw [planUpto_concat, Plan.visit_apart distinct]
    · exact ih fun g' hg' => others g' (by simp [hg'])
    · obtain ⟨s', p', rfl, hne⟩ := others g (by simp)
      intro a ha ha'
      obtain ⟨hs', hp'⟩ := of_decide_eq_true (List.mem_filter.mp ha).2
      obtain ⟨hs, hp⟩ := of_decide_eq_true (List.mem_filter.mp ha').2
      exact hne (by rw [← hs', ← hp', hs, hp])

/-- What the looks at some groups have taken has sizes with floats. -/
theorem Feasible.taken (feasible : Feasible arith policy now quota assets groups)
    (distinct : DistinctIds assets) {a : Asset} (ha : a ∈ assets)
    (fresh : a.assetId ∉ (duePlan arith policy now assets).selected)
    (taken : a.assetId ∈ (planUpto arith policy now quota assets groups).selected) :
    arith.finite (a.sizeBytes.getD 0 : Int) = true := by
  induction groups using List.reverseRecOn with
  | nil => exact (fresh taken).elim
  | append_singleton groups g ih =>
    obtain ⟨hgroups, hlast⟩ := feasible_concat.mp feasible
    rw [planUpto_concat] at taken
    by_cases ht : g.Triggered arith policy quota assets
        (planUpto arith policy now quota assets groups)
    · obtain ⟨order, l, hr, -⟩ := Plan.visit_triggered now distinct ht
      rw [hr.selected, List.mem_append] at taken
      rcases taken with hold | hnew
      · exact ih hgroups hold
      · obtain ⟨b, hb, hid⟩ := List.mem_map.mp hnew
        obtain ⟨hlive, hinherits⟩ := hr.mem hb
        obtain rfl := distinct.eq (SweptGroup.members_subset (Plan.mem_available.mp hlive).1) ha hid
        exact hlast.sizes ht b (List.mem_filter.mpr ⟨hlive, decide_eq_true hinherits⟩)
    · rw [Plan.selected, (Plan.visit_idle now ht).1] at taken
      exact ih hgroups taken

/-- A look at a group converts what it would have converted before any eviction. -/
theorem Feasible.fits_iff (feasible : Feasible arith policy now quota assets groups)
    (distinct : DistinctIds assets) {after : List SweptGroup}
    (split : sweptGroups policy assets = groups ++ g :: after) :
    g.Fits arith policy quota assets (planUpto arith policy now quota assets groups) ↔
      g.Fits arith policy quota assets (duePlan arith policy now assets) := by
  have hextends : (duePlan arith policy now assets).Extends
      (planUpto arith policy now quota assets groups) := by
    have h := @planUpto_extends arith policy now quota assets distinct [] groups
    exact h
  rw [SweptGroup.fits_iff, SweptGroup.fits_iff]
  cases g with
  | partition s p =>
    have hordered := @sweptGroups_ordered policy assets
    rw [split] at hordered
    have hsame := @planUpto_available arith policy now quota assets _ distinct s p fun g' hg' =>
        (List.pairwise_append.mp hordered).2.2 g' hg' _ List.mem_cons_self s p rfl
    simp only [SweptGroup.Measured, SweptGroup.Triggered, Plan.inheriting, hsame]
  | bucket s capacity =>
    simp only [SweptGroup.Measured, SweptGroup.Triggered, hextends.purged]
    refine and_congr_right fun _ => and_congr_right fun _ => imp_congr_right fun _ => ?_
    constructor
    · intro hsizes a ha
      obtain ⟨hlive, hinherits⟩ := List.mem_filter.mp ha
      obtain ⟨hmember, hstate, hfree⟩ := Plan.mem_available.mp hlive
      by_cases htaken : a.assetId ∈ (planUpto arith policy now quota assets groups).selected
      · exact feasible.taken distinct (SweptGroup.members_subset hmember) hfree htaken
      · exact hsizes a (List.mem_filter.mpr
          ⟨Plan.mem_available.mpr ⟨hmember, hstate, htaken⟩, hinherits⟩)
    · exact fun hsizes a ha => hsizes a ((hextends.available.filter _).subset ha)

/-- The planner converts only what has a float if and only if this is so before any eviction. -/
theorem feasible_iff (distinct : DistinctIds assets) :
    Feasible arith policy now quota assets (sweptGroups policy assets) ↔
      ∀ g ∈ sweptGroups policy assets, g.Weighable arith policy now quota assets := by
  constructor
  · intro feasible g hg
    obtain ⟨before, after, hsplit⟩ := List.append_of_mem hg
    have hbefore : Feasible arith policy now quota assets before := fun first g' rest hsplit' =>
      feasible first g' (rest ++ g :: after) (by simp [hsplit, hsplit'])
    exact (fits_due_iff distinct).mp
      ((hbefore.fits_iff distinct hsplit).mp (feasible before g after hsplit))
  · intro weighable
    have hprefix : ∀ groups rest, sweptGroups policy assets = groups ++ rest →
        Feasible arith policy now quota assets groups := by
      intro groups
      induction groups using List.reverseRecOn with
      | nil => exact fun _ _ before g after hsplit => by simp at hsplit
      | append_singleton groups g ih =>
        intro rest hsplit
        rw [List.append_assoc] at hsplit
        have hgroups := ih _ hsplit
        refine feasible_concat.mpr ⟨hgroups, (hgroups.fits_iff distinct hsplit).mpr ?_⟩
        exact (fits_due_iff distinct).mpr (weighable g (by simp [hsplit]))
    exact hprefix _ [] (List.append_nil _).symm

end AssetStore
