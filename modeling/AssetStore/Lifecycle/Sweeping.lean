import AssetStore.Lifecycle.Reading
import AssetStore.Registry.States

/-! A sweep with nothing beside it applies its own plan. The plan counts what the assets it leaves
add up to, and the checks before each action read the counters of the registry; both agree after
every action, because the counters are exact and every action does to its asset what the plan
says. -/

namespace AssetStore

open Lib

variable {env : Env} {arith : Arithmetic} {policy : SweepPolicy} {now : Time}
  {s s' s'' : GuardState} {id : Text} {a a' : Asset}
  {grace : Int} {calls : List (Op × (Nat → Time))}

/-! ### Maintenance updates -/

/-- What calls for an eviction of a partition is the same. -/
def SameTriggers (r r' : Registry) : Prop :=
  ∀ space p, (r'.partitionAt space p).quotaBytes = (r.partitionAt space p).quotaBytes ∧
    (r'.partitionAt space p).evictionSweepEnabled = (r.partitionAt space p).evictionSweepEnabled

theorem SameTriggers.trans {r r' r'' : Registry} (h : SameTriggers r r')
    (h' : SameTriggers r' r'') :
    SameTriggers r r'' := fun space p =>
  ⟨(h' space p).1.trans (h space p).1, (h' space p).2.trans (h space p).2⟩

theorem SameTriggers.release (r : Registry) (space p : Text) (n : Int) :
    SameTriggers r (r.withUsage (r.books.release space p n)) := by
  intro space' p'
  have hkey : (r.withUsage (r.books.release space p n)).partitionAt space' p' =
      if (space', p') = (space, p) then
        { r.partitionAt space p with
          usedBytes := max 0 ((r.partitionAt space p).usedBytes - n)
          usedAssetCount := max 0 ((r.partitionAt space p).usedAssetCount - 1) }
      else r.partitionAt space' p' := by
    simp only [Registry.partitionAt, Registry.withUsage, Books.release, Dict.get_set]
    split <;> rfl
  rw [hkey]
  split
  · rename_i heq
    obtain ⟨rfl, rfl⟩ := Prod.mk.inj heq
    exact ⟨rfl, rfl⟩
  · exact ⟨rfl, rfl⟩

theorem releaseQuota_triggers {q : Session} (h : Sound q.reg) (get : q.reg.assets.get id = some a) :
    ∃ q', releaseQuota a q = .ok () q' ∧ SameTriggers q.reg q'.reg := by
  by_cases hstate : a.state = .available
  · have hrow := h.1.row_valid id _ (Registry.books_get get)
    obtain ⟨p, hp⟩ := hrow.partition_known
    exact ⟨_, releaseQuota_eq h.1 hrow.space_mem hp hstate, .release _ _ _ _⟩
  · exact ⟨q, releaseQuota_of_ne hstate, fun _ _ => ⟨rfl, rfl⟩⟩

/-- A maintenance update that is allowed returns. -/
theorem lifecycleUpdate_returns {q : Session} {state : AssetState} {purge : Bool} (now : Time)
    (reason : Text) (h : Sound q.reg) (get : q.reg.assets.get a.assetId = some a)
    (allowed : validateCleanupTransition a state purge = .ok ()) :
    ∃ a' q', lifecycleUpdate a state now reason purge q = .ok a' q' ∧
      SameTriggers q.reg q'.reg := by
  obtain ⟨q1, hrelease, hlimits⟩ := releaseQuota_triggers h get
  have hsame : raiseIf (a ≠ a) ({ cls := .invalidStateTransition
                                  message := "lifecycle candidate changed" } : Err) = .ok () :=
    raiseIf_eq_ok.mpr (not_not.mpr rfl)
  exact ⟨_, _, (bind_of_ok (getAsset_eq_ok.mpr ⟨get, rfl⟩)).trans <|
    (bind_of_ok (attempt_of_ok hsame)).trans <| (bind_of_ok (attempt_of_ok allowed)).trans <|
    (bind_of_ok hrelease).trans <| (bind_of_ok putAsset_eq).trans <|
    (bind_of_ok ((audit_eq_ok (u := ())).mpr rfl)).trans rfl, hlimits⟩

/-- The state in which one asset is replaced by a maintenance update. -/
structure Updated (env : Env) (id : Text) (a' : Asset) (s s' : GuardState) : Prop where
  assets : s'.reg.assets = s.reg.assets.set id a'
  triggers : SameTriggers s.reg s'.reg
  leads : Leads env s.reg s'.reg
  store : s'.store = s.store

/-- The last step of a locked block that makes a maintenance update. -/
theorem update_alone {state : AssetState} {purge : Bool} (env : Env) (now : Time) (reason : Text)
    (h : Sound s.reg) (get : s.reg.assets.get a.assetId = some a)
    (allowed : validateCleanupTransition a state purge = .ok ()) :
    ∃ s', liftRegistry (do
        let _ ← lifecycleUpdate a state now reason purge
        return true) s = .ok true s' ∧
      Updated env a.assetId { a with
        state, updatedAt := now
        expiredAt := if state = .expired then some now else a.expiredAt
        payloadDeletedAt := if purge then some now else a.payloadDeletedAt } s s' := by
  obtain ⟨a', q', hrun, hlimits⟩ := lifecycleUpdate_returns (q := s.session) now reason h get
    allowed
  obtain ⟨-, -, rfl, hassets⟩ := lifecycleUpdate_ok hrun
  refine ⟨{ s with reg := q'.reg, clock := q'.clock },
    liftRegistry_eq_ok.mpr ⟨q', (bind_of_ok hrun).trans rfl, rfl⟩, hassets, hlimits, ?_, rfl⟩
  have hexec : (Op.lifecycleUpdate a state now reason purge).exec env s.clock s.reg = q'.reg := by
    simp only [Op.exec, Op.run, final_bind_pure]
    rw [hrun]
    rfl
  exact hexec ▸ Leads.call trivial

/-! ### One action -/

/-- An action is an expiry of an available asset, or the purge of an asset that is not available. -/
inductive Action.Fits (action : Action) : Prop
  | expire (state : action.state = .expired) (keeps : action.purge = false)
      (live : action.asset.state = .available)
  | purge (state : action.state = .deleted) (purges : action.purge = true)
      (idle : action.asset.state ≠ .available)

/-- What an action makes of its asset. -/
def Action.result (action : Action) (now : Time) : Asset :=
  if action.purge then
    { action.asset with state := .deleted, updatedAt := now, payloadDeletedAt := some now }
  else { action.asset with state := .expired, updatedAt := now, expiredAt := some now }

/-- Where the bytes of the asset are stored. -/
def Action.location (action : Action) : ObjectStoreLocation :=
  { bucket := action.asset.space, key := action.asset.storageKey }

/-- The action, and nothing else, has been applied. -/
structure Applied (env : Env) (now : Time) (action : Action) (s s' : GuardState) : Prop where
  assets : s'.reg.assets = s.reg.assets.set action.asset.assetId (action.result now)
  triggers : SameTriggers s.reg s'.reg
  leads : Leads env s.reg s'.reg
  store : s'.store = if action.purge then s.store.erase action.location else s.store

section Action

variable {action : Action}

theorem allowed_deleted (unpurged : a.payloadDeletedAt = none) (h : a.state ≠ .available) :
    validateCleanupTransition a .deleted false = .ok () := by
  refine validateCleanupTransition_eq_ok.mpr ⟨.inr ⟨rfl, ?_, .inl rfl⟩, unpurged⟩
  cases hs : a.state with
  | available => exact (h hs).elim
  | pending | expired | deleted => simp

/-- The second locked block of a purge removes the bytes and marks the deleted asset as purged. -/
theorem purgeLocked_alone (env : Env) (now : Time) (h : Sound s.reg)
    (get : s.reg.assets.get action.asset.assetId = some a)
    (hid : a.assetId = action.asset.assetId) (deleted : a.state = .deleted)
    (unpurged : a.payloadDeletedAt = none) :
    ∃ s', alone (purgeLocked now action) s = .ok true s' ∧
      Updated env action.asset.assetId
        { a with state := .deleted, updatedAt := now, payloadDeletedAt := some now }
        { s with store := s.store.erase { bucket := a.space, key := a.storageKey } } s' := by
  have hallowed : validateCleanupTransition a .deleted true = .ok () :=
    validateCleanupTransition_eq_ok.mpr
      ⟨.inr ⟨rfl, .inr (.inr deleted), .inr deleted⟩, unpurged⟩
  obtain ⟨s', hrun, hupdated⟩ := update_alone env now action.reason
    (s := { s with store := s.store.erase { bucket := a.space, key := a.storageKey } }) h
    (hid ▸ get) hallowed
  refine ⟨s', withAssetLock_eq_ok.mpr ⟨a, _, _, get, ?_, hrun⟩, hid ▸ hupdated⟩
  rw [if_neg (by simpa using unpurged), alone_bind]
  refine (bind_of_ok (a := ()) (attempt_of_ok (raiseIf_eq_ok.mpr (not_not.mpr deleted)))).trans ?_
  rw [alone_bind, alone_perform]
  rfl

/-- What the first locked block of an action that is still due ends with. -/
theorem transition_body (due : alone (stillDue arith policy action) s = .ok true s) :
    alone (do
      let due ← stillDue arith policy action
      if due = false then return pure false
      else if action.purge = false ∨ action.asset.state ≠ .deleted then
        return do
          let _ ← lifecycleUpdate action.asset action.state now action.reason
          return true
      else return pure true) s =
      .ok (if action.purge = false ∨ action.asset.state ≠ .deleted then do
          let _ ← lifecycleUpdate action.asset action.state now action.reason
          return true
        else pure true) s := by
  rw [alone_bind]
  refine (bind_of_ok due).trans ?_
  simp only [Bool.true_eq_false, if_false]
  split <;> rfl

theorem transitionLocked_eq_ok {b : Bool} (now : Time)
    (get : s.reg.assets.get action.asset.assetId = some action.asset)
    (due : alone (stillDue arith policy action) s = .ok true s)
    (last : liftRegistry (if action.purge = false ∨ action.asset.state ≠ .deleted then do
        let _ ← lifecycleUpdate action.asset action.state now action.reason
        return true
      else pure true) s = .ok b s') :
    alone (transitionLocked arith policy now action) s = .ok b s' := by
  refine withAssetLock_eq_ok.mpr ⟨action.asset, _, _, get, ?_, last⟩
  rw [if_neg (not_not.mpr rfl)]
  exact transition_body due

/-- An action whose asset has not changed and that is still due is applied. -/
theorem applyAction_alone (now : Time) (h : Runs env (Registry.initial grace) calls s.reg)
    (get : s.reg.assets.get action.asset.assetId = some action.asset) (fits : action.Fits)
    (unpurged : action.asset.payloadDeletedAt = none)
    (due : alone (stillDue arith policy action) s = .ok true s) :
    ∃ s', alone (applyAction arith policy now action) s = .ok true s' ∧
      Applied env now action s s' := by
  unfold applyAction
  rw [alone_bind]
  cases fits with
  | expire state keeps live =>
    have hallowed : validateCleanupTransition action.asset action.state false = .ok () :=
      validateCleanupTransition_eq_ok.mpr ⟨.inl ⟨state, live, rfl⟩, unpurged⟩
    obtain ⟨s', hrun, hupdated⟩ := update_alone env now action.reason h.sound get hallowed
    have hmoved := transitionLocked_eq_ok now get due (by rw [if_pos (.inl keeps)]; exact hrun)
    refine ⟨s', (bind_of_ok hmoved).trans ?_, ?_, hupdated.triggers, hupdated.leads, ?_⟩
    · simp [keeps]
    · simpa [Action.result, keeps, state] using hupdated.assets
    · simpa [keeps] using hupdated.store
  | purge state purges idle =>
    by_cases hdeleted : action.asset.state = .deleted
    · have hmoved := transitionLocked_eq_ok (b := true) now get due
        (by rw [if_neg (by simp [purges, hdeleted])]; rfl)
      obtain ⟨s', hrun, hupdated⟩ := purgeLocked_alone env now h.sound get rfl
        hdeleted unpurged
      refine ⟨s', (bind_of_ok hmoved).trans ?_, ?_, hupdated.triggers, hupdated.leads, ?_⟩
      · simpa [purges] using hrun
      · simpa [Action.result, purges] using hupdated.assets
      · simpa [purges, Action.location] using hupdated.store
    · obtain ⟨s1, hfirst, hfenced⟩ := update_alone env now action.reason h.sound get
        (allowed_deleted unpurged idle)
      have hmoved := transitionLocked_eq_ok now get due
        (by rw [if_pos (.inr hdeleted), state]; exact hfirst)
      obtain ⟨calls1, hcalls1⟩ := hfenced.leads
      have hreach := h.append hcalls1
      have hget := congrArg (fun d => d.get action.asset.assetId) hfenced.assets
      simp only [Dict.get_set_self] at hget
      obtain ⟨s', hrun, hupdated⟩ := purgeLocked_alone env now hreach.sound hget rfl rfl
        unpurged
      refine ⟨s', (bind_of_ok hmoved).trans ?_, ?_, hfenced.triggers.trans hupdated.triggers,
        Trans.trans hfenced.leads hupdated.leads, ?_⟩
      · simpa [purges] using hrun
      · rw [hupdated.assets, hfenced.assets, Dict.set_set]
        simp [Action.result, purges]
      · rw [hupdated.store, hfenced.store]
        simp [purges, Action.location]

end Action

/-! ### The actions before it -/

/-- The actions, and nothing else, have been applied. -/
structure Swept (env : Env) (now : Time) (done : List Action) (s s' : GuardState) : Prop where
  changed : ∀ action ∈ done, s'.reg.assets.get action.asset.assetId = some (action.result now)
  kept : ∀ id, (∀ action ∈ done, action.asset.assetId ≠ id) →
    s'.reg.assets.get id = s.reg.assets.get id
  erased : ∀ action ∈ done, action.purge = true → s'.store.get action.location = none
  stored : ∀ location, (∀ action ∈ done, action.purge = true → action.location ≠ location) →
    s'.store.get location = s.store.get location
  triggers : SameTriggers s.reg s'.reg
  leads : Leads env s.reg s'.reg

theorem Swept.same (hreg : s'.reg = s.reg) (hstore : s'.store = s.store) :
    Swept env now [] s s' where
  changed _ h := by cases h
  kept _ _ := by rw [hreg]
  erased _ h := by cases h
  stored _ _ := by rw [hstore]
  triggers _ _ := by simp [hreg]
  leads := hreg ▸ .refl _

theorem Swept.snoc {done : List Action} {action : Action} (h : Swept env now done s s')
    (ha : Applied env now action s' s'')
    (fresh : ∀ b ∈ done, b.asset.assetId ≠ action.asset.assetId) :
    Swept env now (done ++ [action]) s s'' where
  changed b hb := by
    rcases List.mem_append.mp hb with hold | hlast
    · rw [ha.assets, Dict.get_set_ne _ _ (fresh b hold)]
      exact h.changed b hold
    · obtain rfl := List.mem_singleton.mp hlast
      rw [ha.assets, Dict.get_set_self]
  kept id hid := by
    have hne := hid action (by simp)
    rw [ha.assets, Dict.get_set_ne _ _ hne.symm]
    exact h.kept id fun b hb => hid b (by simp [hb])
  erased b hb hpurge := by
    rw [ha.store]
    rcases List.mem_append.mp hb with hold | hlast
    · have hnone := h.erased b hold hpurge
      split
      · rw [Dict.get_erase]
        split
        · rfl
        · exact hnone
      · exact hnone
    · obtain rfl := List.mem_singleton.mp hlast
      simp [hpurge]
  stored location hl := by
    have hold := h.stored location fun b hb => hl b (by simp [hb])
    rw [ha.store]
    split
    · rw [Dict.get_erase_ne _ (hl action (by simp) ‹_›).symm]
      exact hold
    · exact hold
  triggers := h.triggers.trans ha.triggers
  leads := Trans.trans h.leads ha.leads

section Swept

variable {done : List Action} {r : Registry}

theorem Action.result_state (action : Action) (now : Time) :
    (action.result now).state ≠ .available := by
  unfold Action.result
  split <;> simp

theorem sumSizes_le {l l' : List Asset} (h : l.Sublist l')
    (nonneg : ∀ a ∈ l', 0 ≤ a.sizeBytes.getD 0) :
    sumSizes l ≤ sumSizes l' :=
  (h.map _).sum_le_sum (by simpa using nonneg)

theorem Runs.size_nonneg (h : Runs env (Registry.initial grace) calls r) (ha : a ∈ r.listed) :
    0 ≤ a.sizeBytes.getD 0 := by
  obtain ⟨⟨id, get⟩, -⟩ := mem_listed.mp ha
  have hrow := h.sound.1.row_valid id _ (Registry.books_get get)
  cases hsize : a.sizeBytes with
  | none => exact le_refl 0
  | some n => exact hrow.size_nonneg n hsize

/-- What is available after some actions is what the plan counts as available after them. -/
theorem Swept.available (h : Swept env now done s s')
    (hs : Runs env (Registry.initial grace) calls s.reg)
    (keep : Asset → Prop) [DecidablePred keep] :
    sizeSum (s'.reg.available keep) =
      sumSizes (({ actions := done } : Plan).available (s.reg.listed.filter fun a => keep a)) := by
  have hafter : sizeSum (s'.reg.available keep) = s'.reg.assets.sum fun a =>
      if a.state = .available ∧ keep a then a.sizeBytes.getD 0 else 0 := (Dict.sum_ite _ _ _).symm
  have hplanned :
    sumSizes (({ actions := done } : Plan).available (s.reg.listed.filter fun a => keep a)) =
      s.reg.assets.sum fun a => if a.payloadDeletedAt = none ∧ keep a ∧ a.state = .available ∧
        a.assetId ∉ ({ actions := done } : Plan).selected then a.sizeBytes.getD 0 else 0 := by
    rw [Dict.sum_ite]
    simp only [sumSizes, Plan.available, Registry.listed, List.filter_filter]
    congr 2
    refine List.filter_congr fun a _ => ?_
    simp only [Bool.decide_and, decide_not]
    ac_rfl
  rw [hafter, hplanned]
  refine Dict.sum_eq_of_term fun id => ?_
  have hselected : id ∈ ({ actions := done } : Plan).selected ↔
      ∃ action ∈ done, action.asset.assetId = id := List.mem_map
  by_cases hdone : ∃ action ∈ done, action.asset.assetId = id
  · -- an asset that an action has touched is not available any more, and the plan leaves it out
    obtain ⟨action, haction, hid⟩ := hdone
    rw [Dict.term_of_get (hid ▸ h.changed action haction),
      if_neg fun hc => action.result_state now hc.1]
    cases hget : s.reg.assets.get id with
    | none => rw [Dict.term_of_not_get hget]
    | some c =>
      have hc : c.assetId = id := hs.filed id c hget
      rw [Dict.term_of_get hget, if_neg]
      rintro ⟨-, -, -, hfree⟩
      exact hfree (hc ▸ hselected.mpr ⟨action, haction, hid⟩)
  · have hkept := h.kept id fun action haction hid => hdone ⟨action, haction, hid⟩
    cases hget : s.reg.assets.get id with
    | none => rw [Dict.term_of_not_get hget, Dict.term_of_not_get (hkept.trans hget)]
    | some c =>
      have hc : c.assetId = id := hs.filed id c hget
      have hunpurged : c.state = .available → c.payloadDeletedAt = none := fun hlive =>
        ((hs.shaped id c hget).available hlive).2.2.2.2
      have hfree : c.assetId ∉ ({ actions := done } : Plan).selected := by
        rw [hc, hselected]
        exact hdone
      rw [Dict.term_of_get hget, Dict.term_of_get (hkept.trans hget)]
      refine if_congr ?_ rfl rfl
      constructor
      · rintro ⟨hlive, hkeep⟩
        exact ⟨hunpurged hlive, hkeep, hlive, hfree⟩
      · rintro ⟨-, hkeep, hlive, -⟩
        exact ⟨hlive, hkeep⟩

/-! ### Checks that never refuse -/

/-- Reading the registry in the middle of a sweep. -/
theorem alone_read {α : Type} {m : RegM α} {v : α} (h : m s.session = .ok v s.session) :
    alone (registry m) s = .ok v s := by
  rw [alone_registry, liftRegistry_eq_ok]
  exact ⟨_, h, rfl⟩

theorem SweepPolicy.mem_capacities {space : Text} {capacity : Int} :
    (space, capacity) ∈ policy.capacities ↔ policy.capacityBytes.get space = some capacity := by
  simp only [capacities, List.mem_filterMap, List.mem_mergeSort, Option.map_eq_some_iff]
  constructor
  · rintro ⟨name, -, bytes, hget, heq⟩
    obtain ⟨rfl, rfl⟩ := Prod.mk.inj heq
    exact hget
  · exact fun hget => ⟨space, by simp [policy.capacityBytes.mem_keys, hget], capacity, hget, rfl⟩

/-- The usage of a limit, after some actions, is at least what the plan counts. Partition ids that
normalize alike share their counters. -/
theorem Swept.usage (h : Swept env now done s s')
    (hs : Runs env (Registry.initial grace) calls s.reg) :
    (∀ space pid p, normPart pid = some p → sumSizes (({ actions := done } : Plan).available
        ((SweptGroup.partition space pid).members s.reg.listed)) ≤
      (s'.reg.partitionAt space p).usedBytes) ∧
    ∀ space capacity, sumSizes (({ actions := done } : Plan).available
        ((SweptGroup.bucket space capacity).members s.reg.listed)) =
      (s'.reg.bucketAt space).usedBytes := by
  obtain ⟨more, hmore⟩ := h.leads
  refine ⟨fun space pid p hp => ?_, fun space capacity => ?_⟩
  · rw [partition_usage (hs.append hmore) space p, h.available hs]
    refine sumSizes_le (List.Sublist.filter _ (List.monotone_filter_right _ fun a ha => ?_))
      fun a ha => ?_
    · obtain ⟨hspace, rfl⟩ := of_decide_eq_true ha
      exact decide_eq_true ⟨hspace, hp⟩
    · exact hs.size_nonneg (List.mem_of_mem_filter (Plan.mem_available.mp ha).1)
  · rw [bucket_usage (hs.append hmore) space, h.available hs]
    rfl

theorem stillDue_quota {action : Action} (h : action.reason = "quota_lfu".toList) :
    stillDue arith policy action = (do
      let quota ← registry (partitionQuota action.asset.space action.asset.partitionId)
      check (aboveTarget arith policy quota)) := if_pos h

theorem stillDue_pressure {action : Action} (h : action.reason = "pressure_lfu".toList) :
    stillDue arith policy action = (do
      let quota ← registry (bucketQuota action.asset.space)
      let capacity ← check (someOr (policy.capacityBytes.get action.asset.space)
        { cls := .keyError, message := "%r", args := [action.asset.space] })
      check (arith.convert capacity)
      return decide (arith.times capacity policy.pressureTarget < quota.usedBytes)) := by
  unfold stillDue
  rw [h, if_neg (by decide), if_pos rfl]

theorem aboveTarget_eq {quota : PartitionQuota} {bytes : Int} (enabled : quota.evictionSweepEnabled)
    (limit : quota.quotaBytes = some bytes) (convertible : arith.finite (bytes : Rat) = true)
    (above : arith.times bytes policy.quotaTarget < quota.usedBytes) :
    aboveTarget arith policy quota = .ok true := by
  simp only [aboveTarget, limit, if_pos enabled]
  rw [except_bind_eq_ok]
  exact ⟨(), convert_eq_ok.mpr convertible, congrArg Except.ok (decide_eq_true above)⟩

/-- What calls for an action in the plan still calls for it when its turn comes. -/
theorem Swept.stillDue (h : Swept env now done s s')
    (hs : Runs env (Registry.initial grace) calls s.reg)
    {action : Action} (hw : Warranted arith policy now s.reg.counters s.reg.listed
      { actions := done } action) :
    alone (stillDue arith policy action) s' = .ok true s' := by
  obtain ⟨husage, hbucket⟩ := h.usage hs
  cases hw with
  | due listed due =>
    have hreason : AssetStore.stillDue arith policy action = pure true := by
      unfold AssetStore.stillDue
      rcases dueAction_reason due with hr | hr <;> rw [hr, if_neg (by decide), if_neg (by decide)]
    rw [hreason]
    rfl
  | @evict g a swept limited may held inherits undue convertible above =>
    have hlisted := (SweptGroup.mem_members (Plan.mem_available.mp held).1).1
    obtain ⟨⟨id, get⟩, -⟩ := mem_listed.mp hlisted
    have hrow := hs.sound.1.row_valid id _ (Registry.books_get get)
    obtain ⟨pid, hpid⟩ := hrow.partition_known
    cases g with
    | partition space p =>
      obtain ⟨rfl, rfl⟩ : a.space = space ∧ a.partitionId = p :=
        of_decide_eq_true (List.mem_filter.mp (Plan.mem_available.mp held).1).2
      have hcounters : s.reg.counters a.space a.partitionId = s.reg.partitionAt a.space pid := by
        simp [Registry.counters, hpid]
      obtain ⟨hbytes, hsweep⟩ := h.triggers a.space pid
      obtain ⟨henabled, hlimit⟩ := limited
      obtain ⟨bytes, hquota⟩ := Option.ne_none_iff_exists'.mp hlimit
      have habove : arith.times bytes policy.quotaTarget <
          (s'.reg.partitionAt a.space pid).usedBytes := by
        rw [SweptGroup.target, hquota, Option.getD_some] at above
        exact above.trans_le (by exact_mod_cast husage a.space _ _ hpid)
      have hfinite := convertible bytes hquota
      rw [hcounters] at henabled hquota
      rw [stillDue_quota rfl, alone_bind]
      refine (bind_of_ok (alone_read (partitionQuota_eq hrow.space_mem hpid))).trans ?_
      rw [alone_check]
      exact attempt_of_ok
        (aboveTarget_eq (hsweep.trans henabled) (hbytes.trans hquota) hfinite habove)
    | bucket space capacity =>
      obtain rfl : a.space = space :=
        of_decide_eq_true (List.mem_filter.mp (Plan.mem_available.mp held).1).2
      have hcapacity : policy.capacityBytes.get a.space = some capacity :=
        SweepPolicy.mem_capacities.mp (by simpa [sweptGroups] using swept)
      rw [SweptGroup.target, hbucket a.space capacity] at above
      rw [stillDue_pressure rfl, alone_bind]
      refine (bind_of_ok (alone_read (bucketQuota_eq hrow.space_mem))).trans ?_
      rw [alone_bind]
      refine (bind_of_ok (a := capacity) (attempt_of_ok (by simp [someOr, hcapacity]))).trans ?_
      rw [alone_bind]
      refine (bind_of_ok (a := ()) (attempt_of_ok (convert_eq_ok.mpr convertible))).trans ?_
      rw [alone_pure]
      exact congrArg (fun b => EStateM.Result.ok b s') (decide_eq_true above)

/-! ### The whole plan -/

theorem Warranted.asset {plan : Plan} {action : Action} {assets : List Asset}
    {quota : Text → Text → PartitionQuota}
    (h : Warranted arith policy now quota assets plan action) :
    action.asset ∈ assets ∧ action.Fits := by
  cases h with
  | @due a action listed due =>
    have hasset := dueAction_asset due
    unfold dueAction at due
    refine ⟨hasset ▸ listed, ?_⟩
    split at due <;> split at due <;> cases due
    · exact .purge rfl rfl (by simp [*])
    · exact .expire rfl rfl ‹_›
    · exact .purge rfl rfl (by simp [*])
    · exact .purge rfl rfl (by simp [*])
  | evict swept limited may held inherits undue convertible above =>
    obtain ⟨hmember, hstate, -⟩ := Plan.mem_available.mp held
    exact ⟨(SweptGroup.mem_members hmember).1, .expire rfl rfl hstate⟩

/-- Each action of a plan is applied in its turn. -/
theorem applyActions_alone (hs : Runs env (Registry.initial grace) calls s.reg)
    {plan : Plan} (hp : plan.Proper arith policy now s.reg.counters s.reg.listed) :
    ∀ {rest done : List Action} (report : SweepReport) {s' : GuardState}, plan.actions =
      done ++ rest →
      Swept env now done s s' → ∃ s'', alone (applyActions arith policy now rest report) s' =
        .ok { report with applied := report.applied + rest.length } s'' ∧
        Swept env now plan.actions s s''
  | [], done, report, s', hsplit, h => by
    refine ⟨s', rfl, ?_⟩
    rwa [hsplit, List.append_nil]
  | action :: rest, done, report, s', hsplit, h => by
    have hw := hp.warranted done action rest hsplit
    obtain ⟨hlisted, hfits⟩ := hw.asset
    obtain ⟨⟨id, get⟩, hunpurged⟩ := mem_listed.mp hlisted
    obtain rfl : action.asset.assetId = id := hs.filed id _ get
    have hfresh : ∀ b ∈ done, b.asset.assetId ≠ action.asset.assetId := by
      have honce := hp.once
      rw [Plan.selected, hsplit, List.map_append, List.map_cons] at honce
      exact fun b hb => (List.nodup_append.mp honce).2.2 _ (List.mem_map_of_mem hb)
        _ List.mem_cons_self
    obtain ⟨more, hmore⟩ := h.leads
    obtain ⟨s1, hrun, happlied⟩ := applyAction_alone now (hs.append hmore)
      ((h.kept _ hfresh).trans get) hfits hunpurged (h.stillDue hs hw)
    obtain ⟨s'', hrest, hswept⟩ := applyActions_alone hs hp (report.count (some true))
      (by simpa using hsplit) (h.snoc happlied hfresh)
    have hcaught : alone (Prog.tryCatch (do
        let applied ← applyAction arith policy now action
        return some applied) fun _ => pure none) s' = .ok (some true) s1 := by
      have hreturns : alone (do
          let applied ← applyAction arith policy now action
          return some applied) s' = .ok (some true) s1 := by
        rw [alone_bind]
        exact (bind_of_ok hrun).trans rfl
      unfold alone at hreturns ⊢
      rw [Prog.run_tryCatch, hreturns]
    refine ⟨s'', ?_, hswept⟩
    rw [applyActions, alone_bind]
    refine (bind_of_ok hcaught).trans (hrest.trans ?_)
    simp only [SweepReport.count, List.length_cons, Nat.add_assoc, Nat.add_comm 1]

/-- The report of a sweep that applies its whole plan. -/
def Plan.report (plan : Plan) : SweepReport :=
  { dryRun := false, candidates := plan.actions.length, applied := plan.actions.length
    exhausted := plan.exhausted }

/-- The state once the sweep knows its instant. -/
theorem nowOr_alone (given : Option Time) (s : GuardState) :
    ∃ s0, alone (nowOr given) s = .ok (given.getD (s.clock 0)) s0 ∧ s0.reg = s.reg ∧
      s0.store = s.store := by
  cases given with
  | some now => exact ⟨s, rfl, rfl, rfl⟩
  | none => exact ⟨{ s with clock := fun n => s.clock (n + 1) }, rfl, rfl, rfl⟩

/-- Alone, a sweep whose plan is made applies what is planned for the listing. -/
theorem runSweep_alone (h : Runs env (Registry.initial grace) calls s.reg) (policy : SweepPolicy)
    (given : Option Time) {plan : Plan}
    (hplan : alone (planSweep arith policy (given.getD (s.clock 0))) s = .ok plan s) :
    ∃ s', alone (runSweep arith policy false given) s = .ok plan.report s' ∧
      Swept env (given.getD (s.clock 0)) plan.actions s s' := by
  obtain ⟨s0, hnow, hreg, hstore⟩ := nowOr_alone given s
  generalize given.getD (s.clock 0) = now at hnow hplan ⊢
  obtain ⟨feasible, hfor, -⟩ := (planSweep_eq_ok h.sound).mp hplan
  have hproper : plan.Proper arith policy now s.reg.counters s.reg.listed :=
    hfor ▸ planFor_proper h.sound.listed_distinct feasible
  have hplanned : alone (planSweep arith policy now) s0 = .ok plan s0 := by
    refine (planSweep_eq_ok (hreg ▸ h.sound)).mpr ?_
    rw [hreg]
    exact ⟨feasible, hfor, rfl⟩
  obtain ⟨s', hrun, hswept⟩ := applyActions_alone h hproper
    { dryRun := false, candidates := plan.actions.length, exhausted := plan.exhausted } rfl
    (.same hreg hstore)
  refine ⟨s', ?_, hswept⟩
  rw [runSweep, alone_bind]
  refine (bind_of_ok hnow).trans ?_
  rw [alone_bind]
  refine (bind_of_ok hplanned).trans (hrun.trans ?_)
  simp [Plan.report]

/-- A sweep that returns has made its plan. -/
theorem runSweep_plans (h : Sound s.reg) {given : Option Time} {dryRun : Bool}
    {report : SweepReport}
    (hrun : alone (runSweep arith policy dryRun given) s = .ok report s') :
    ∃ plan, alone (planSweep arith policy (given.getD (s.clock 0))) s = .ok plan s := by
  obtain ⟨s0, hnow, hreg, -⟩ := nowOr_alone given s
  rw [runSweep, alone_bind] at hrun
  replace hrun := (bind_of_ok hnow).symm.trans hrun
  rw [alone_bind, bind_eq_ok] at hrun
  obtain ⟨plan, s1, hplan, -⟩ := hrun
  obtain ⟨feasible, hfor, -⟩ := (planSweep_eq_ok (hreg ▸ h)).mp hplan
  rw [hreg] at feasible hfor
  exact ⟨plan, (planSweep_eq_ok h).mpr ⟨feasible, hfor, rfl⟩⟩

/-- A dry run changes nothing, whether it returns or not. -/
theorem runSweep_dry (h : Sound s.reg) (policy : SweepPolicy) (given : Option Time) :
    (final (alone (runSweep arith policy true given) s)).reg = s.reg ∧
      (final (alone (runSweep arith policy true given) s)).store = s.store := by
  obtain ⟨s0, hnow, hreg, hstore⟩ := nowOr_alone given s
  have hdry : final (alone (runSweep arith policy true given) s) = s0 := by
    rw [runSweep, alone_bind]
    refine (congrArg final (bind_of_ok hnow)).trans ?_
    rw [alone_bind]
    have hplan := planSweep_alone arith policy (given.getD (s.clock 0)) (hreg ▸ h : Sound s0.reg)
    let report (plan : Plan) : Except Err SweepReport :=
      .ok { dryRun := true, candidates := plan.actions.length, exhausted := plan.exhausted }
    exact (congrArg final (bind_attempt (g := report) hplan fun _ => rfl)).trans final_attempt
  rw [hdry]
  exact ⟨hreg, hstore⟩

/-- With nothing beside it, a sweep applies every action of its plan: what is planned to expire has
expired at the instant of the sweep, what is planned to be purged is deleted at that instant with
its bytes, and nothing else has changed. It does so if and only if the limits and the sizes that the
planner converts have doubles. A dry run changes nothing. -/
theorem sweep_applies_plan (h : Runs env (Registry.initial grace) calls s.reg)
    (policy : SweepPolicy) (given : Option Time) :
    ((∃ plan s', alone (planSweep .double policy (given.getD (s.clock 0))) s = .ok plan s ∧
      alone (runSweep .double policy false given) s =
        .ok { dryRun := false, candidates := plan.actions.length, applied := plan.actions.length
              skipped := 0, errors := 0, exhausted := plan.exhausted } s' ∧
      (∀ action ∈ plan.actions, s.reg.assets.get action.asset.assetId = some action.asset) ∧
      (∀ action ∈ plan.actions, action.purge = false →
        s'.reg.assets.get action.asset.assetId = some { action.asset with
          state := .expired, updatedAt := given.getD (s.clock 0)
          expiredAt := some (given.getD (s.clock 0)) }) ∧
      (∀ action ∈ plan.actions, action.purge = true →
        s'.reg.assets.get action.asset.assetId = some { action.asset with
          state := .deleted, updatedAt := given.getD (s.clock 0)
          payloadDeletedAt := some (given.getD (s.clock 0)) } ∧
        s'.store.get { bucket := action.asset.space, key := action.asset.storageKey } = none) ∧
      (∀ id, (∀ action ∈ plan.actions, action.asset.assetId ≠ id) →
        s'.reg.assets.get id = s.reg.assets.get id) ∧
      (∀ location, (∀ action ∈ plan.actions, action.purge = true →
          ({ bucket := action.asset.space, key := action.asset.storageKey } : ObjectStoreLocation) ≠
            location) →
        s'.store.get location = s.store.get location)) ↔
      ∀ g ∈ sweptGroups policy s.reg.listed, g.Weighable .double policy
        (given.getD (s.clock 0)) s.reg.counters s.reg.listed) ∧
    (final (alone (runSweep .double policy true given) s)).reg = s.reg ∧
      (final (alone (runSweep .double policy true given) s)).store = s.store := by
  have hdistinct := h.sound.listed_distinct
  refine ⟨⟨?_, fun weighable => ?_⟩, runSweep_dry h.sound policy given⟩
  · rintro ⟨plan, s', hplan, -⟩
    exact (feasible_iff hdistinct).mp ((planSweep_eq_ok h.sound).mp hplan).1
  have feasible := (feasible_iff hdistinct).mpr weighable
  have hplan := (planSweep_eq_ok h.sound).mpr ⟨feasible, rfl, rfl⟩
  obtain ⟨s', hrun, hswept⟩ := runSweep_alone h policy given hplan
  refine ⟨_, s', hplan, hrun, fun action haction => ?_, fun action haction hkeeps => ?_,
    fun action haction hpurges => ⟨?_, ?_⟩, hswept.kept, hswept.stored⟩
  · obtain ⟨before, after, hsplit⟩ := List.append_of_mem haction
    obtain ⟨hlisted, -⟩ :=
      ((planFor_proper hdistinct feasible).warranted before action after hsplit).asset
    obtain ⟨⟨id, get⟩, -⟩ := mem_listed.mp hlisted
    rw [h.filed id _ get]
    exact get
  · simpa [Action.result, hkeeps] using hswept.changed action haction
  · simpa [Action.result, hpurges] using hswept.changed action haction
  · exact hswept.erased action haction hpurges

end Swept

/-- A reservation that was never committed. -/
def orphaned : GuardState where
  reg := reserveCall.exec plainEnv (fun _ => 0) (.initial 0)
  store := .empty
  ledger := .empty
  clock _ := 0

theorem orphaned_runs : Runs plainEnv (.initial 0) [(reserveCall, fun _ => 0)] orphaned.reg :=
  show Runs plainEnv (.initial 0) ([] ++ [(reserveCall, fun _ => 0)]) orphaned.reg
    from .snoc .nil rfl

theorem sweep_applies_plan_orphaned : ∃ report s' a,
    alone (runSweep .double {} false (some 86400000000)) orphaned = .ok report s' ∧
      report.applied = 1 ∧ s'.reg.assets.get "a1".toList = some a ∧ a.state = .deleted ∧
        a.payloadDeletedAt = some 86400000000 := by
  obtain ⟨plan, s', hplan, hrun, -, -, hpurged, -⟩ :=
    (sweep_applies_plan orphaned_runs {} (some 86400000000)).1.mpr (by decide +kernel)
  have hactions : (planFor .double {} 86400000000 orphaned.reg.counters
      orphaned.reg.listed).actions.map (fun action => (action.asset.assetId, action.purge)) =
        [("a1".toList, true)] := by decide +kernel
  obtain ⟨-, rfl, -⟩ := (planSweep_eq_ok orphaned_runs.sound).mp hplan
  obtain ⟨action, haction, hfacts⟩ := List.map_eq_singleton_iff.mp hactions
  obtain ⟨hid, hpurge⟩ := Prod.mk.inj hfacts
  obtain ⟨hget, -⟩ := hpurged action (haction ▸ List.mem_cons_self) hpurge
  exact ⟨_, s', _, hrun, congrArg List.length haction, hid ▸ hget, rfl, rfl⟩

/-- A capacity of `2 ^ 1024` bytes for the cache. -/
def boundlessPolicy : SweepPolicy where
  __ := SweepPolicy.standard
  capacityBytes := Dict.empty.set "cache".toList (2 ^ 1024)
  capacity_valid space bytes h := by
    rw [Dict.get_set] at h
    split at h
    · cases h
      subst_vars
      decide +kernel
    · simp at h

/-- Under such a policy a sweep raises, and the reservation that is due is left. -/
theorem sweep_overflows : ∃ e s', alone (runSweep .double boundlessPolicy false
    (some 86400000000)) orphaned = .error e s' ∧ e.cls = .overflowError ∧
      s'.reg.assets.get "a1".toList = orphaned.reg.assets.get "a1".toList := by
  have hraises : raises (fun e s' => e.cls == .overflowError &&
      s'.reg.assets.get "a1".toList == orphaned.reg.assets.get "a1".toList)
      (alone (runSweep .double boundlessPolicy false (some 86400000000)) orphaned) = true := by
    decide +kernel
  obtain ⟨e, s', hrun, hfacts⟩ := exists_error_of_raises hraises
  simp only [Bool.and_eq_true, beq_iff_eq] at hfacts
  exact ⟨e, s', hrun, hfacts⟩

end AssetStore
