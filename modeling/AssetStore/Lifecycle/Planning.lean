import AssetStore.Guard.Spec
import AssetStore.Lib.Greedy
import AssetStore.Lifecycle
import AssetStore.Registry.Accounting

/-! The plan of a sweep. Apart from the registry that it is read from, a plan is a function of a
listing and of the counters of the partitions: the actions that are due by age come first, and then
one group after the other is relieved, the partitions before the spaces. The planner returns this
plan unless a number that it converts is too large for a float. -/

namespace AssetStore

open Lib

/-! ### Groups -/

/-- A group of assets whose usage a sweep looks at. -/
inductive SweptGroup
  | partition (space partitionId : Text)
  | bucket (space : Text) (capacity : Int)
  deriving DecidableEq

namespace SweptGroup

def space : SweptGroup → Text
  | partition s _ | bucket s _ => s

def members (assets : List Asset) : SweptGroup → List Asset
  | partition s p => assets.filter fun a => a.space = s ∧ a.partitionId = p
  | bucket s _ => assets.filter fun a => a.space = s

def reason : SweptGroup → Text
  | partition .. => "quota_lfu".toList
  | bucket .. => "pressure_lfu".toList

/-- The bytes that may stay when the group is relieved. -/
def target (arith : Arithmetic) (policy : SweepPolicy) (quota : Text → Text → PartitionQuota) :
    SweptGroup → Rat
  | partition s p => arith.times ((quota s p).quotaBytes.getD 0) policy.quotaTarget
  | bucket _ capacity => arith.times capacity policy.pressureTarget

/-- A limit whose sweep is enabled. -/
def Limited (quota : Text → Text → PartitionQuota) : SweptGroup → Prop
  | partition s p => (quota s p).evictionSweepEnabled ∧ (quota s p).quotaBytes ≠ none
  | bucket .. => True

/-- The limit of the group has a float. -/
def Convertible (arith : Arithmetic) (quota : Text → Text → PartitionQuota) : SweptGroup → Prop
  | partition s p => ∀ bytes ∈ (quota s p).quotaBytes, arith.finite (bytes : Int) = true
  | bucket _ capacity => arith.finite capacity = true

/-- With the actions of the plan, the usage of the group is compared with its trigger. -/
def Measured (quota : Text → Text → PartitionQuota) (assets : List Asset) (plan : Plan) :
    SweptGroup → Prop
  | group@(partition s p) => (quota s p).evictionSweepEnabled ∧ (quota s p).quotaBytes ≠ none ∧
      0 < sumSizes (plan.available (group.members assets))
  | bucket s _ => evictable s

/-- With the actions of the plan, the group still holds more than its trigger allows. -/
def Triggered (arith : Arithmetic) (policy : SweepPolicy) (quota : Text → Text → PartitionQuota)
    (assets : List Asset) (plan : Plan) : SweptGroup → Prop
  | group@(partition s p) => (quota s p).evictionSweepEnabled ∧ ∃ bytes ∈ (quota s p).quotaBytes,
      0 < sumSizes (plan.available (group.members assets)) ∧
        arith.times bytes policy.quotaTrigger ≤ sumSizes (plan.available (group.members assets))
  | group@(bucket s capacity) => evictable s ∧ arith.times capacity policy.pressureTrigger ≤
      sumPhysical ((group.members assets).filter fun a => a.assetId ∉ plan.purged)

instance (arith : Arithmetic) (policy : SweepPolicy) (quota : Text → Text → PartitionQuota)
    (assets : List Asset) (plan : Plan) : DecidablePred (Triggered arith policy quota assets plan)
  | partition _ _ => inferInstanceAs (Decidable (_ ∧ _))
  | bucket _ _ => inferInstanceAs (Decidable (_ ∧ _))

/-- What the group adds to the occupancy that the plan reports. -/
def ratios (arith : Arithmetic) (assets : List Asset) : SweptGroup → List (Text × Rat)
  | partition .. => []
  | group@(bucket s capacity) =>
    let physical := sumPhysical ((group.members assets).filter fun a => a.payloadDeletedAt = none)
    [(s, arith.round ((physical : Rat) / capacity))]

/-- The occupancy of the group has a float. -/
def RatioFits (arith : Arithmetic) (assets : List Asset) : SweptGroup → Prop
  | partition .. => True
  | group@(bucket _ capacity) =>
    let physical := sumPhysical ((group.members assets).filter fun a => a.payloadDeletedAt = none)
    arith.finite ((physical : Rat) / capacity) = true

/-- What a look at the group converts has floats: its limit, and the sizes that are compared. -/
@[mk_iff]
structure Fits (arith : Arithmetic) (policy : SweepPolicy) (quota : Text → Text → PartitionQuota)
    (assets : List Asset) (plan : Plan) (g : SweptGroup) : Prop where
  ratio : g.RatioFits arith assets
  limit : g.Measured quota assets plan → g.Convertible arith quota
  sizes : g.Triggered arith policy quota assets plan → ∀ a ∈ plan.inheriting (g.members assets),
    arith.finite (a.sizeBytes.getD 0 : Int) = true

theorem Triggered.measured {arith : Arithmetic} {policy : SweepPolicy}
    {quota : Text → Text → PartitionQuota} {assets : List Asset} {plan : Plan} {g : SweptGroup}
    (ht : g.Triggered arith policy quota assets plan) : g.Measured quota assets plan := by
  cases g with
  | partition s p =>
    obtain ⟨henabled, bytes, hbytes, hused, -⟩ := ht
    exact ⟨henabled, by simp [Option.mem_def.mp hbytes], hused⟩
  | bucket s capacity => exact ht.1

end SweptGroup

/-- The groups of a listing: the partitions that may be evicted from, then the spaces with a
capacity, each in order. -/
def sweptGroups (policy : SweepPolicy) (assets : List Asset) : List SweptGroup :=
  ((sweptPartitions assets).map fun key => .partition key.1 key.2) ++
    policy.capacities.map fun c => .bucket c.1 c.2

section Plans

variable (arith : Arithmetic) (policy : SweepPolicy) (now : Time)
  (quota : Text → Text → PartitionQuota) (assets : List Asset)

/-- What the age or the state of the assets calls for. -/
def duePlan : Plan where
  actions :=
    (assets.mergeSort fun a b => decide (a.assetId ≤ b.assetId)).filterMap
      (dueAction arith policy now)

/-- The plan after a look at one more group. -/
def Plan.visit (plan : Plan) (g : SweptGroup) : Plan :=
  let noted := { plan with ratios := plan.ratios ++ g.ratios arith assets }
  if g.Triggered arith policy quota assets plan then
    noted.relieve arith now (g.members assets) (g.target arith policy quota) g.reason g.space
  else noted

/-- The plan after a look at some groups. -/
def planUpto (groups : List SweptGroup) : Plan :=
  groups.foldl (Plan.visit arith policy now quota assets) (duePlan arith policy now assets)

/-- The plan for a listing, where `quota` gives the counters of each partition. -/
def planFor : Plan := planUpto arith policy now quota assets (sweptGroups policy assets)

end Plans

variable {arith : Arithmetic} {policy : SweepPolicy} {now : Time}
  {quota : Text → Text → PartitionQuota} {assets group : List Asset} {plan : Plan} {g : SweptGroup}

theorem SweptGroup.members_subset : g.members assets ⊆ assets := by
  cases g with
  | partition s p => exact List.filter_sublist.subset
  | bucket s capacity => exact List.filter_sublist.subset

theorem SweptGroup.mem_members {a : Asset} (h : a ∈ g.members assets) :
    a ∈ assets ∧ a.space = g.space := by
  cases g with
  | partition s p =>
    exact ⟨List.mem_of_mem_filter h, (of_decide_eq_true (List.mem_filter.mp h).2).1⟩
  | bucket s capacity =>
    exact ⟨List.mem_of_mem_filter h, of_decide_eq_true (List.mem_filter.mp h).2⟩

/-! ### What is left of a group -/

theorem Plan.mem_available {a : Asset} :
    a ∈ plan.available group ↔ a ∈ group ∧ a.state = .available ∧ a.assetId ∉ plan.selected := by
  simp [available]

theorem sumSizes_perm {l l' : List Asset} (h : l.Perm l') : sumSizes l = sumSizes l' :=
  (h.map _).sum_eq

theorem sumSizes_append (l l' : List Asset) : sumSizes (l ++ l') = sumSizes l + sumSizes l' := by
  simp [sumSizes]

/-- Assets with distinct ids. -/
abbrev DistinctIds (assets : List Asset) : Prop := (assets.map fun a => a.assetId).Nodup

theorem DistinctIds.eq (h : DistinctIds assets) {a b : Asset} (ha : a ∈ assets) (hb : b ∈ assets)
    (hid : a.assetId = b.assetId) : a = b :=
  List.inj_on_of_nodup_map h ha hb hid

theorem DistinctIds.sublist {l : List Asset} (h : DistinctIds assets) (hl : l.Sublist assets) :
    DistinctIds l := List.Nodup.sublist (hl.map _) h

theorem DistinctIds.filter (h : DistinctIds assets) (p : Asset → Bool) :
    DistinctIds (assets.filter p) := h.sublist List.filter_sublist

theorem DistinctIds.members (h : DistinctIds assets) : DistinctIds (g.members assets) := by
  cases g with
  | partition s p => exact h.filter _
  | bucket s capacity => exact h.filter _

/-- What is left of distinct assets without some of them. -/
theorem sumSizes_without {l taken : List Asset} (h : DistinctIds l) (hsub : taken.Subperm l) :
    sumSizes (l.filter fun a => a.assetId ∉ taken.map fun a => a.assetId) =
      sumSizes l - sumSizes taken := by
  have hids : DistinctIds taken := by
    obtain ⟨l', hperm, hl'⟩ := hsub
    exact (hperm.map _).nodup_iff.mp (h.sublist hl')
  have htaken : (l.filter fun a => a.assetId ∈ taken.map fun a => a.assetId).Perm taken := by
    refine (List.perm_ext_iff_of_nodup (List.Nodup.of_map _ (h.filter _))
      (List.Nodup.of_map _ hids)).mpr
      fun a => ?_
    simp only [List.mem_filter, decide_eq_true_eq, List.mem_map]
    constructor
    · rintro ⟨ha, b, hb, hid⟩
      rwa [h.eq ha (hsub.subset hb) hid.symm]
    · exact fun ha => ⟨hsub.subset ha, a, ha, rfl⟩
  have hsplit := sumSizes_perm
    (List.filter_append_perm (fun a : Asset => decide (a.assetId ∈ taken.map fun a => a.assetId)) l)
  rw [sumSizes_append, sumSizes_perm htaken] at hsplit
  simp only [decide_not]
  omega

/-- Actions on available assets leave the rest of them. -/
theorem Plan.sumSizes_available {plan' : Plan} {taken : List Asset} {f : Asset → Action}
    (h : DistinctIds group) (hf : ∀ a, (f a).asset = a)
    (hsub : taken.Subperm (plan.available group))
    (hactions : plan'.actions = plan.actions ++ taken.map f) :
    sumSizes (plan'.available group) = sumSizes (plan.available group) - sumSizes taken := by
  have hlive : DistinctIds (plan.available group) := h.filter _
  have hselected : plan'.selected = plan.selected ++ taken.map fun a => a.assetId := by
    simp [selected, hactions, Function.comp_def, hf]
  rw [← sumSizes_without hlive hsub]
  simp only [available, hselected, List.filter_filter, List.mem_append, not_or]
  congr 1
  refine List.filter_congr fun a _ => ?_
  simp only [Bool.decide_and, decide_not]
  ac_rfl

/-! ### Relieving a group -/

/-- The size of an asset, as the plan counts it. -/
def Asset.bytes (a : Asset) : Rat := (a.sizeBytes.getD 0 : Int)

theorem sum_bytes (l : List Asset) : (l.map Asset.bytes).sum = sumSizes l := by
  induction l with
  | nil => simp [sumSizes]
  | cons a l ih =>
    simp only [List.map_cons, List.sum_cons, ih, sumSizes, Asset.bytes]
    push_cast
    rfl

theorem takeUntil_relief (target : Rat) : ∀ (candidates : List Asset) (remaining : Int),
    Relief Asset.bytes target remaining candidates (takeUntil target candidates remaining).1 ∧
      (takeUntil target candidates remaining).2 =
        remaining - sumSizes (takeUntil target candidates remaining).1
  | [], remaining => ⟨.nil, by simp [takeUntil, sumSizes]⟩
  | a :: rest, remaining => by
    unfold takeUntil
    split
    · exact ⟨.stop ‹_›, by simp [sumSizes]⟩
    · obtain ⟨hrelief, hleft⟩ := takeUntil_relief target rest (remaining - a.sizeBytes.getD 0)
      refine ⟨.cons (not_le.mp ‹_›) ?_, ?_⟩
      · push_cast at hrelief
        exact hrelief
      · simp only [hleft, sumSizes, List.map_cons, List.sum_cons]
        omega

/-- What may be evicted from a group, the highest score first. -/
def Plan.candidates (arith : Arithmetic) (plan : Plan) (now : Time) (group : List Asset) :
    List Asset :=
  (plan.inheriting group).mergeSort fun a b => decide (score arith b now ≤ score arith a now)

theorem score_inj {a b : Asset} (h : score arith a now = score arith b now) :
    a.assetId = b.assetId := congrArg (fun s => (ofLex s).2) h

theorem score_trans (a b c : Asset) (hab : decide (score arith b now ≤ score arith a now) = true)
    (hbc : decide (score arith c now ≤ score arith b now) = true) :
    decide (score arith c now ≤ score arith a now) = true :=
  decide_eq_true ((of_decide_eq_true hbc).trans (of_decide_eq_true hab))

theorem score_total (a b : Asset) : (decide (score arith b now ≤ score arith a now) ||
    decide (score arith a now ≤ score arith b now)) = true := by
  simpa using le_total (score arith b now) (score arith a now)

theorem Plan.candidates_perm :
    (plan.candidates arith now group).Perm (plan.inheriting group) := List.mergeSort_perm _ _

theorem Plan.candidates_pairwise (h : DistinctIds group) :
    (plan.candidates arith now group).Pairwise fun a b => score arith b now <
      score arith a now := by
  have hids : DistinctIds (plan.candidates arith now group) :=
    (candidates_perm.map _).nodup_iff.mpr ((h.filter _).filter _)
  have hsorted : (plan.candidates arith now group).Pairwise fun a b =>
      decide (score arith b now ≤ score arith a now) = true :=
    List.pairwise_mergeSort score_trans score_total _
  refine List.Pairwise.imp_of_mem ?_ (hsorted.and (List.pairwise_map.mp hids))
  rintro a b - - ⟨hle, hne⟩
  exact lt_of_le_of_ne (of_decide_eq_true hle) fun he => hne (score_inj he.symm)

/-- A plan relieves a group: it goes on with the expiry of the candidates that are taken in
order. -/
structure Relieved (arith : Arithmetic) (now : Time) (target : Rat) (reason : Text)
    (group : List Asset) (plan plan' : Plan) (order taken : List Asset) : Prop where
  candidates : order.Perm ((plan.available group).filter fun a => a.evictionPolicy = .inherit)
  sorted : order.Pairwise fun a b => score arith b now < score arith a now
  relief : Relief Asset.bytes target (sumSizes (plan.available group)) order taken
  actions : plan'.actions =
    plan.actions ++ taken.map fun a => { asset := a, state := .expired, reason }
  left : sumSizes (plan'.available group) = sumSizes (plan.available group) - sumSizes taken

theorem taken_subperm {target total : Rat} {live order taken : List Asset}
    (h : Relief Asset.bytes target total order taken)
    (hperm : order.Perm (live.filter fun a => a.evictionPolicy = .inherit)) : taken.Subperm live :=
  (h.front.sublist.subperm.trans hperm.subperm).trans List.filter_sublist.subperm

theorem Plan.relieve_relieved (arith : Arithmetic) (now : Time) (h : DistinctIds group)
    (target : Rat)
    (reason space : Text) :
    ∃ order taken, Relieved arith now target reason group plan
        (plan.relieve arith now group target reason space) order taken ∧
      (plan.relieve arith now group target reason space).exhausted =
        if target <
            sumSizes ((plan.relieve arith now group target reason space).available group) then
          insert space plan.exhausted else plan.exhausted := by
  obtain ⟨hrelief, hleft⟩ := takeUntil_relief target (plan.candidates arith now group)
    (sumSizes (plan.available group))
  have hafter := Plan.sumSizes_available h (fun _ => rfl) (taken_subperm hrelief candidates_perm)
    (show (plan.relieve arith now group target reason space).actions = _ from rfl)
  refine ⟨_, _, ⟨candidates_perm, candidates_pairwise h, hrelief, rfl, hafter⟩, ?_⟩
  have hsame := hleft.trans hafter.symm
  change (if target < ((takeUntil target (plan.candidates arith now group)
    (sumSizes (plan.available group))).2 : Rat) then insert space plan.exhausted
      else plan.exhausted) = _
  rw [hsame]

/-- A look at a group that calls for evictions relieves it, and reports its space when it stays
above the target. -/
theorem Plan.visit_triggered (now : Time) (h : DistinctIds assets)
    (ht : g.Triggered arith policy quota assets plan) :
    ∃ order taken, Relieved arith now (g.target arith policy quota) g.reason (g.members assets) plan
        (plan.visit arith policy now quota assets g) order taken ∧
      (plan.visit arith policy now quota assets g).exhausted =
        if g.target arith policy quota < sumSizes
            ((plan.visit arith policy now quota assets g).available (g.members assets)) then
          insert g.space plan.exhausted else plan.exhausted := by
  rw [visit, if_pos ht]
  obtain ⟨order, taken, hr, hexhausted⟩ := @relieve_relieved _
    { plan with ratios := plan.ratios ++ g.ratios arith assets } arith now h.members
    (g.target arith policy quota) g.reason g.space
  exact ⟨order, taken, ⟨hr.candidates, hr.sorted, hr.relief, hr.actions, hr.left⟩, hexhausted⟩

/-- A look at a group that calls for no evictions leaves the actions. -/
theorem Plan.visit_idle (now : Time) (ht : ¬g.Triggered arith policy quota assets plan) :
    (plan.visit arith policy now quota assets g).actions = plan.actions ∧
      (plan.visit arith policy now quota assets g).exhausted = plan.exhausted := by
  rw [visit, if_neg ht]
  exact ⟨rfl, rfl⟩

/-! ### What calls for an action -/

/-- What calls for an action after the actions before it: the age or the state of the asset, or a
group that still holds more than its target. -/
inductive Warranted (arith : Arithmetic) (policy : SweepPolicy) (now : Time)
    (quota : Text → Text → PartitionQuota)
    (assets : List Asset) (before : Plan) : Action → Prop
  | due {a : Asset} {action : Action} (listed : a ∈ assets)
      (due : dueAction arith policy now a = some action) :
      Warranted arith policy now quota assets before action
  | evict {g : SweptGroup} {a : Asset} (swept : g ∈ sweptGroups policy assets)
      (limited : g.Limited quota) (may : evictable g.space = true)
      (held : a ∈ before.available (g.members assets)) (inherits : a.evictionPolicy = .inherit)
      (undue : dueAction arith policy now a = none) (convertible : g.Convertible arith quota)
      (above : g.target arith policy quota < sumSizes (before.available (g.members assets))) :
      Warranted arith policy now quota assets before
        { asset := a, state := .expired, reason := g.reason }

/-- Every action of the plan is called for after those before it. -/
def Plan.Warranted (arith : Arithmetic) (policy : SweepPolicy) (now : Time)
    (quota : Text → Text → PartitionQuota)
    (assets : List Asset) (plan : Plan) : Prop :=
  ∀ before action after, plan.actions = before ++ action :: after →
    AssetStore.Warranted arith policy now quota assets { actions := before } action

theorem dueAction_asset {a : Asset} {action : Action}
    (h : dueAction arith policy now a = some action) :
    action.asset = a := by
  unfold dueAction at h
  split at h <;> split at h <;> first | (cases h; done) | (obtain rfl := Option.some.inj h; rfl)

theorem dueAction_reason {a : Asset} {action : Action}
    (h : dueAction arith policy now a = some action) :
    action.reason = "orphan".toList ∨ action.reason = "ttl_expired".toList := by
  unfold dueAction at h
  split at h <;> split at h <;> first | (cases h; done) | (obtain rfl := Option.some.inj h; simp)

theorem mem_duePlan {action : Action} :
    action ∈ (duePlan arith policy now assets).actions ↔
      ∃ a ∈ assets, dueAction arith policy now a = some action := by
  simp [duePlan]

theorem map_filterMap_sublist {l : List Asset} :
    (((l.filterMap (dueAction arith policy now)).map fun action => action.asset.assetId)).Sublist
      (l.map fun a => a.assetId) := by
  induction l with
  | nil => exact .slnil
  | cons a l ih =>
    cases hdue : dueAction arith policy now a with
    | none =>
      rw [List.filterMap_cons_none hdue]
      exact ih.cons _
    | some action =>
      rw [List.filterMap_cons_some hdue, List.map_cons, List.map_cons, dueAction_asset hdue]
      exact ih.cons_cons _

theorem duePlan_selected (h : DistinctIds assets) :
    (duePlan arith policy now assets).selected.Nodup :=
  map_filterMap_sublist.nodup (((List.mergeSort_perm _ _).map _).nodup_iff.mpr h)

theorem duePlan_covers {a : Asset} (ha : a ∈ assets) (hdue : dueAction arith policy now a ≠ none) :
    a.assetId ∈ (duePlan arith policy now assets).selected := by
  obtain ⟨action, haction⟩ := Option.ne_none_iff_exists'.mp hdue
  refine List.mem_map.mpr ⟨action, mem_duePlan.mpr ⟨a, ha, haction⟩, ?_⟩
  rw [dueAction_asset haction]

/-- A group that calls for evictions may be evicted from and has a limit. -/
theorem SweptGroup.Triggered.limited (hg : g ∈ sweptGroups policy assets)
    (ht : g.Triggered arith policy quota assets plan) :
    g.Limited quota ∧ evictable g.space = true := by
  cases g with
  | partition s p =>
    obtain ⟨henabled, bytes, hbytes, -⟩ := ht
    have hmem : (s, p) ∈ sweptPartitions assets := by
      simpa [sweptGroups] using hg
    have hspace : evictable s = true := by
      simp only [sweptPartitions, List.mem_mergeSort, List.mem_dedup, List.mem_filter] at hmem
      exact hmem.2
    exact ⟨⟨henabled, by simp [Option.mem_def.mp hbytes]⟩, hspace⟩
  | bucket s capacity => exact ⟨trivial, ht.1⟩

/-- The plan of a sweep so far: each asset has at most one action, each action is called for, and
what is due is planned. -/
structure Plan.Proper (arith : Arithmetic) (policy : SweepPolicy) (now : Time)
    (quota : Text → Text → PartitionQuota)
    (assets : List Asset) (plan : Plan) : Prop where
  once : plan.selected.Nodup
  warranted : plan.Warranted arith policy now quota assets
  covers : ∀ a ∈ assets, dueAction arith policy now a ≠ none → a.assetId ∈ plan.selected

theorem duePlan_proper (h : DistinctIds assets) :
    (duePlan arith policy now assets).Proper arith policy now quota assets where
  once := duePlan_selected h
  warranted before action after hsplit := by
    have hmem : action ∈ (duePlan arith policy now assets).actions := by simp [hsplit]
    obtain ⟨a, listed, due⟩ := mem_duePlan.mp hmem
    exact .due listed due
  covers _ := duePlan_covers

section Visit

variable {target : Rat} {reason : Text} {plan' : Plan} {order taken : List Asset}

theorem Relieved.subperm (hr : Relieved arith now target reason group plan plan' order taken) :
    taken.Subperm (plan.available group) := taken_subperm hr.relief hr.candidates

theorem Relieved.mem (hr : Relieved arith now target reason group plan plan' order taken)
    {a : Asset}
    (ha : a ∈ taken) : a ∈ plan.available group ∧ a.evictionPolicy = .inherit := by
  have horder : a ∈ order := hr.relief.front.subset ha
  simpa using hr.candidates.mem_iff.mp horder

theorem Relieved.distinct (hr : Relieved arith now target reason group plan plan' order taken)
    (h : DistinctIds group) : DistinctIds taken := by
  obtain ⟨l, hperm, hl⟩ := hr.subperm
  have hlive : DistinctIds (plan.available group) := h.filter _
  exact (hperm.map _).nodup_iff.mp (hlive.sublist hl)

theorem Relieved.selected (hr : Relieved arith now target reason group plan plan' order taken) :
    plan'.selected = plan.selected ++ taken.map fun a => a.assetId := by
  simp [Plan.selected, hr.actions, Function.comp_def]

/-- What is taken from a group is taken while the group holds more than the target. -/
theorem Relieved.split (hr : Relieved arith now target reason group plan plan' order taken)
    (h : DistinctIds group) {first rest : List Asset} {a : Asset}
    (hsplit : taken = first ++ a :: rest)
    {mid : Plan} (hmid : mid.actions =
      plan.actions ++ first.map fun a => { asset := a, state := .expired, reason }) :
    a ∈ mid.available group ∧ target < sumSizes (mid.available group) := by
  have hfirst : first.Subperm (plan.available group) :=
    (List.Sublist.subperm (by simp [hsplit])).trans hr.subperm
  have hleft := Plan.sumSizes_available h (fun _ => rfl) hfirst hmid
  have habove : target < sumSizes (plan.available group) - (first.map Asset.bytes).sum :=
    (hsplit ▸ hr.relief).above
  obtain ⟨hlive, -⟩ := hr.mem (a := a) (by simp [hsplit])
  obtain ⟨hmem, hstate, hfree⟩ := Plan.mem_available.mp hlive
  refine ⟨Plan.mem_available.mpr ⟨hmem, hstate, ?_⟩, ?_⟩
  · have hids := hr.distinct h
    rw [hsplit, DistinctIds, List.map_append, List.map_cons] at hids
    have hselected : mid.selected = plan.selected ++ first.map fun a => a.assetId := by
      simp [Plan.selected, hmid, Function.comp_def]
    rw [hselected, List.mem_append, not_or]
    exact ⟨hfree, fun hin => (List.nodup_append.mp hids).2.2 _ hin _ List.mem_cons_self rfl⟩
  · rw [hleft]
    rw [sum_bytes] at habove
    exact_mod_cast habove

/-- A look at a group plans no second action for an asset. -/
theorem Plan.visit_once (h : DistinctIds assets) (once : plan.selected.Nodup) :
    (plan.visit arith policy now quota assets g).selected.Nodup := by
  by_cases ht : g.Triggered arith policy quota assets plan
  · obtain ⟨order, taken, hr, -⟩ := Plan.visit_triggered now h ht
    rw [hr.selected]
    refine List.nodup_append.mpr ⟨once, hr.distinct h.members, ?_⟩
    rintro id hid _ htaken rfl
    obtain ⟨a, ha, rfl⟩ := List.mem_map.mp htaken
    exact (Plan.mem_available.mp (hr.mem ha).1).2.2 hid
  · rw [Plan.selected, (Plan.visit_idle now ht).1]
    exact once

/-- A look at a group keeps the plan proper. -/
theorem Plan.Proper.visit (hp : plan.Proper arith policy now quota assets) (h : DistinctIds assets)
    (hg : g ∈ sweptGroups policy assets) (hfits : g.Fits arith policy quota assets plan) :
    (plan.visit arith policy now quota assets g).Proper arith policy now quota assets := by
  by_cases ht : g.Triggered arith policy quota assets plan
  · obtain ⟨order, taken, hr, -⟩ := Plan.visit_triggered now h ht
    obtain ⟨hlimited, hmay⟩ := ht.limited hg
    -- what is taken is evicted after the plan so far and what was taken before it
    have evicted : ∀ {first after action}, (taken.map fun a =>
        ({ asset := a, state := .expired, reason := g.reason } : Action)) = first ++
          action :: after →
        AssetStore.Warranted arith policy now quota assets
          { actions := plan.actions ++ first } action := by
      intro first after action hnew
      obtain ⟨l1, l2, htaken, rfl, hrest⟩ := List.map_eq_append_iff.mp hnew
      obtain ⟨a, l3, rfl, rfl, -⟩ := List.map_eq_cons_iff.mp hrest
      obtain ⟨hheld, habove⟩ := hr.split h.members htaken
        (show ({ actions := plan.actions ++ l1.map _ } : Plan).actions = _ from rfl)
      obtain ⟨hlive, hinherits⟩ := hr.mem (a := a) (by simp [htaken])
      obtain ⟨hmem, -, hfree⟩ := Plan.mem_available.mp hlive
      refine .evict hg hlimited hmay hheld hinherits ?_ (hfits.limit ht.measured) habove
      by_contra hdue
      exact hfree (hp.covers a (SweptGroup.members_subset hmem) hdue)
    refine ⟨Plan.visit_once h hp.once, fun before action after hsplit => ?_, fun a ha hdue => ?_⟩
    · rw [hr.actions] at hsplit
      rcases List.append_eq_append_iff.mp hsplit with ⟨first, hbefore, hnew⟩ | ⟨last, hold, hnew⟩
      · subst hbefore
        exact evicted hnew
      · cases last with
        | nil =>
          have hbefore : before = plan.actions ++ [] := by simpa using hold.symm
          rw [hbefore]
          exact evicted (by simpa using hnew.symm)
        | cons next last =>
          obtain ⟨rfl, -⟩ := List.cons_eq_cons.mp hnew
          exact hp.warranted before action last hold
    · rw [hr.selected]
      exact List.mem_append_left _ (hp.covers a ha hdue)
  · have hactions := (Plan.visit_idle now ht).1
    refine ⟨Plan.visit_once h hp.once, ?_, ?_⟩
    · rw [Plan.Warranted, hactions]
      exact hp.warranted
    · rw [Plan.selected, hactions]
      exact hp.covers

end Visit

/-! ### Whole plans -/

theorem planUpto_concat (groups : List SweptGroup) (g : SweptGroup) :
    planUpto arith policy now quota assets (groups ++ [g]) =
      (planUpto arith policy now quota assets groups).visit arith policy now quota assets g := by
  simp [planUpto]

/-- What the looks at some groups convert has floats. -/
def Feasible (arith : Arithmetic) (policy : SweepPolicy) (now : Time)
    (quota : Text → Text → PartitionQuota) (assets : List Asset)
    (groups : List SweptGroup) : Prop :=
  ∀ before g after, groups = before ++ g :: after →
    g.Fits arith policy quota assets (planUpto arith policy now quota assets before)

theorem feasible_concat {groups : List SweptGroup} :
    Feasible arith policy now quota assets (groups ++ [g]) ↔
      Feasible arith policy now quota assets groups ∧
        g.Fits arith policy quota assets (planUpto arith policy now quota assets groups) := by
  constructor
  · exact fun h => ⟨fun before g' after hsplit => h before g' (after ++ [g]) (by simp [hsplit]),
      h groups g [] rfl⟩
  · rintro ⟨hgroups, hlast⟩ before g' after hsplit
    rcases after.eq_nil_or_concat with rfl | ⟨after, g'', rfl⟩
    · obtain ⟨rfl, hg⟩ := List.append_inj' hsplit rfl
      exact List.singleton_injective hg ▸ hlast
    · rw [List.concat_eq_append, ← List.cons_append, ← List.append_assoc] at hsplit
      exact hgroups before g' after (List.append_inj' hsplit rfl).1

theorem planUpto_proper (h : DistinctIds assets) {groups : List SweptGroup}
    (hg : ∀ g ∈ groups, g ∈ sweptGroups policy assets)
    (feasible : Feasible arith policy now quota assets groups) :
    (planUpto arith policy now quota assets groups).Proper arith policy now quota assets := by
  induction groups using List.reverseRecOn with
  | nil => exact duePlan_proper h
  | append_singleton groups g ih =>
    obtain ⟨hgroups, hlast⟩ := feasible_concat.mp feasible
    rw [planUpto_concat]
    exact (ih (fun g' hg' => hg g' (by simp [hg'])) hgroups).visit h (hg g (by simp)) hlast

theorem planFor_proper (h : DistinctIds assets)
    (feasible : Feasible arith policy now quota assets (sweptGroups policy assets)) :
    (planFor arith policy now quota assets).Proper arith policy now quota assets :=
  planUpto_proper h (fun _ hg => hg) feasible

/-! #### Plans that go on -/

/-- The plan goes on with actions that purge nothing. -/
def Plan.Extends (plan plan' : Plan) : Prop :=
  ∃ more, plan'.actions = plan.actions ++ more ∧ ∀ action ∈ more, action.purge = false

theorem Plan.Extends.refl (plan : Plan) : plan.Extends plan := ⟨[], by simp, by simp⟩

theorem Plan.Extends.trans {plan' plan'' : Plan} (h : plan.Extends plan')
    (h' : plan'.Extends plan'') :
    plan.Extends plan'' := by
  obtain ⟨more, hactions, hmore⟩ := h
  obtain ⟨more', hactions', hmore'⟩ := h'
  refine ⟨more ++ more', by rw [hactions', hactions, List.append_assoc], fun action haction => ?_⟩
  rcases List.mem_append.mp haction with hfirst | hlast
  · exact hmore action hfirst
  · exact hmore' action hlast

theorem Plan.visit_extends (distinct : DistinctIds assets) :
    plan.Extends (plan.visit arith policy now quota assets g) := by
  by_cases ht : g.Triggered arith policy quota assets plan
  · obtain ⟨order, taken, hr, -⟩ := Plan.visit_triggered now distinct ht
    exact ⟨_, hr.actions, by simp⟩
  · exact ⟨[], by rw [(Plan.visit_idle now ht).1, List.append_nil], by simp⟩

theorem planUpto_extends (distinct : DistinctIds assets) {groups more : List SweptGroup} :
    (planUpto arith policy now quota assets groups).Extends
      (planUpto arith policy now quota assets (groups ++ more)) := by
  induction more using List.reverseRecOn with
  | nil => simpa using Plan.Extends.refl _
  | append_singleton more g ih =>
    rw [← List.append_assoc, planUpto_concat]
    exact ih.trans (Plan.visit_extends distinct)

theorem Plan.Extends.selected (h : plan.Extends plan') : plan.selected ⊆ plan'.selected := by
  obtain ⟨more, hactions, -⟩ := h
  simp [Plan.selected, hactions]

theorem Plan.Extends.purged (h : plan.Extends plan') : plan'.purged = plan.purged := by
  obtain ⟨more, hactions, hmore⟩ := h
  have hnone : (more.filter fun action => action.purge) = [] :=
    List.filter_eq_nil_iff.mpr fun action haction => by simp [hmore action haction]
  simp [Plan.purged, hactions, hnone]

theorem Plan.Extends.available (h : plan.Extends plan') :
    (plan'.available group).Sublist (plan.available group) :=
  List.monotone_filter_right _ fun a ha => by
    obtain ⟨hlive, hfree⟩ := of_decide_eq_true ha
    exact decide_eq_true ⟨hlive, fun hin => hfree (h.selected hin)⟩

/-! #### Exhausted spaces -/

/-- After a look at the groups before it, the group calls for evictions, and it stays above its
target after its own. -/
def SweptGroup.Exhausts (arith : Arithmetic) (policy : SweepPolicy) (now : Time)
    (quota : Text → Text → PartitionQuota)
    (assets : List Asset) (before : List SweptGroup) (g : SweptGroup) : Prop :=
  g.Triggered arith policy quota assets (planUpto arith policy now quota assets before) ∧
    g.target arith policy quota <
      sumSizes ((planUpto arith policy now quota assets (before ++ [g])).available
        (g.members assets))

theorem planUpto_exhausted (h : DistinctIds assets) {groups : List SweptGroup} {space : Text} :
    space ∈ (planUpto arith policy now quota assets groups).exhausted ↔
      ∃ before g after, groups = before ++ g :: after ∧
        g.space = space ∧ g.Exhausts arith policy now quota assets before := by
  induction groups using List.reverseRecOn with
  | nil => simp [planUpto, duePlan]
  | append_singleton groups g ih =>
    rw [exists_split_concat, ← ih, planUpto_concat, SweptGroup.Exhausts, planUpto_concat]
    by_cases ht :
      g.Triggered arith policy quota assets (planUpto arith policy now quota assets groups)
    · obtain ⟨order, taken, -, hexhausted⟩ := Plan.visit_triggered now h ht
      rw [hexhausted]
      split
      · simp [*, or_comm, eq_comm]
      · simp [*]
    · simp [(Plan.visit_idle now ht).2, ht]

/-! #### The order of the listing -/

section Order

variable {assets' group' : List Asset}

theorem assetId_sorted_eq (h : DistinctIds assets) (hperm : assets.Perm assets') :
    (assets.mergeSort fun a b => decide (a.assetId ≤ b.assetId)) =
      assets'.mergeSort fun a b => decide (a.assetId ≤ b.assetId) := by
  refine mergeSort_eq_of_perm (fun a b c hab hbc => ?_) (fun a b => ?_)
    (fun a ha b hb hab hba => ?_) hperm
  · exact decide_eq_true ((of_decide_eq_true hab).trans (of_decide_eq_true hbc))
  · simpa using le_total a.assetId b.assetId
  · exact h.eq ha hb (le_antisymm (of_decide_eq_true hab) (of_decide_eq_true hba))

theorem sweptPartitions_eq (hperm : assets.Perm assets') :
    sweptPartitions assets = sweptPartitions assets' := by
  refine mergeSort_eq_of_perm (fun a b c hab hbc => ?_) (fun a b => ?_)
    (fun a ha b hb hab hba => ?_) ?_
  · exact decide_eq_true ((of_decide_eq_true hab).trans (of_decide_eq_true hbc))
  · simpa using le_total (toLex a) (toLex b)
  · exact toLex.injective (le_antisymm (of_decide_eq_true hab) (of_decide_eq_true hba))
  · exact ((hperm.map _).filter _).dedup

theorem Plan.candidates_eq (h : DistinctIds group) (hperm : group.Perm group') :
    plan.candidates arith now group = plan.candidates arith now group' := by
  refine mergeSort_eq_of_perm score_trans score_total (fun a ha b hb hab hba => ?_)
    ((hperm.filter _).filter _)
  have hids : DistinctIds (plan.inheriting group) := (h.filter _).filter _
  exact hids.eq ha hb (score_inj (le_antisymm (of_decide_eq_true hba) (of_decide_eq_true hab)))

theorem Plan.relieve_eq (h : DistinctIds group) (hperm : group.Perm group') (target : Rat)
    (reason space : Text) : plan.relieve arith now group target reason space =
      plan.relieve arith now group' target reason space := by
  have hsum : sumSizes (plan.available group) = sumSizes (plan.available group') :=
    sumSizes_perm (hperm.filter _)
  have hcandidates : plan.candidates arith now group = plan.candidates arith now group' :=
    candidates_eq h hperm
  unfold candidates at hcandidates
  simp only [relieve, hsum, hcandidates]

theorem SweptGroup.members_perm (hperm : assets.Perm assets') (g : SweptGroup) :
    (g.members assets).Perm (g.members assets') := by
  cases g with
  | partition s p => exact hperm.filter _
  | bucket s capacity => exact hperm.filter _

theorem sumPhysical_perm {l l' : List Asset} (h : l.Perm l') : sumPhysical l = sumPhysical l' :=
  (h.map _).sum_eq

theorem Plan.visit_eq (h : DistinctIds assets) (hperm : assets.Perm assets') (g : SweptGroup) :
    plan.visit arith policy now quota assets g = plan.visit arith policy now quota assets' g := by
  have hmembers := g.members_perm hperm
  have hratios : g.ratios arith assets = g.ratios arith assets' := by
    cases g with
    | partition s p => rfl
    | bucket s capacity => simp only [SweptGroup.ratios, sumPhysical_perm (hmembers.filter _)]
  have htriggered : g.Triggered arith policy quota assets plan ↔
      g.Triggered arith policy quota assets' plan := by
    cases g with
    | partition s p =>
      simp only [SweptGroup.Triggered, sumSizes_perm (hmembers.filter _), available]
    | bucket s capacity => simp only [SweptGroup.Triggered, sumPhysical_perm (hmembers.filter _)]
  simp only [visit, hratios, htriggered, relieve_eq h.members hmembers]

/-- The plan does not depend on the order of the listing. -/
theorem planFor_eq (h : DistinctIds assets) (hperm : assets.Perm assets') :
    planFor arith policy now quota assets = planFor arith policy now quota assets' := by
  have hvisit : Plan.visit arith policy now quota assets =
      Plan.visit arith policy now quota assets' := by
    funext plan g
    exact Plan.visit_eq h hperm g
  simp only [planFor, planUpto, duePlan, sweptGroups, hvisit, assetId_sorted_eq h hperm,
    sweptPartitions_eq hperm]

end Order

end AssetStore
