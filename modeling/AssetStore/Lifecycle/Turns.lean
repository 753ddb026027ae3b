import AssetStore.Guard.Turns
import AssetStore.Lifecycle.Spec

/-! A sweep whose locked blocks are atomic. It reads its instant, the listing and the quotas, and
then takes one action after the other. A purge takes two turns: the first block makes the deleted
state durable and the second removes the bytes. Both give the asset the instant of the sweep as its
revision. -/

namespace AssetStore

open Lib

variable {arith : Arithmetic} {policy : SweepPolicy} {now : Time} {β : Type}

/-! ### Programs -/

/-- A sweep that has planned. -/
def resumeSweep (arith : Arithmetic) (policy : SweepPolicy) (now : Time) (plan : Plan) :
    GuardProg SweepReport :=
  applyActions arith policy now plan.actions
    { dryRun := false, candidates := plan.actions.length, exhausted := plan.exhausted }

/-- A sweep that has taken an action. -/
def resumeActions (arith : Arithmetic) (policy : SweepPolicy) (now : Time) (rest : List Action)
    (report : SweepReport) :
    Except Err Bool → GuardProg SweepReport
  | .ok applied => applyActions arith policy now rest (report.count (some applied))
  | .error _ => applyActions arith policy now rest (report.count none)

/-- A sweep that has read the quotas. -/
def resumePlan (arith : Arithmetic) (policy : SweepPolicy) (now : Time) (assets : List Asset)
    (plan : Plan) :
    GuardProg SweepReport :=
  (check (policy.capacities.foldlM
    (fun plan c => plan.evictPressure arith policy now assets c.1 c.2) plan)).andThen
      (Prog.onOk (resumeSweep arith policy now))

theorem applyActions_cons {action : Action} {rest : List Action} {report : SweepReport} :
    applyActions arith policy now (action :: rest) report =
      (transitionLocked arith policy now action).andThen fun r =>
        (Prog.onOk (fun moved => if moved = true ∧ action.purge = true then purgeLocked now action
          else pure moved) r).andThen (resumeActions arith policy now rest report) := by
  have hresume : ∀ r : Except Err Bool,
      ((Prog.onOk (fun applied => (pure (some applied) : GuardProg (Option Bool))) r).andThen
        (Prog.onError fun _ => pure none)).andThen
          (Prog.onOk fun resultOf => applyActions arith policy now rest (report.count resultOf)) =
        resumeActions arith policy now rest report r := by
    intro r
    cases r <;> rfl
  rw [applyActions, Prog.bind_eq_andThen, Prog.tryCatch_eq_andThen, Prog.bind_eq_andThen,
    applyAction, Prog.bind_eq_andThen]
  simp only [Prog.andThen_assoc]
  refine congrArg _ (funext fun r => congrArg _ (funext fun r' => ?_))
  rw [← hresume, Prog.andThen_assoc]

/-! ### Blocks -/

theorem transitionLocked_stays {action : Action} (current : Asset) :
    (if current ≠ action.asset then (pure (pure false) : GuardProg (RegM Bool))
      else do
        let due ← stillDue arith policy action
        if due = false then return pure false
        else if action.purge = false ∨ current.state ≠ .deleted then
          return do
            let _ ← lifecycleUpdate current action.state now action.reason
            return true
        else return pure true).All Cmd.Stays fun _ => True :=
  .ite .ret (.bind (stillDue_all fun _ _ => rfl) fun _ _ => .ite .ret (.ite .ret .ret))

theorem transitionLocked_atomic {action : Action} :
    (transitionLocked arith policy now action).Atomic lockBlocks Cmd.sem :=
  withAssetLock_atomic transitionLocked_stays

theorem purgeLocked_atomic {action : Action} :
    (purgeLocked now action).Atomic lockBlocks Cmd.sem :=
  withAssetLock_atomic fun _ =>
    .ite .ret (.bind .ret fun _ _ => .bind (.perform fun _ => rfl) fun _ _ => .ret)

section Revisions

variable {ok : Text → Time → Prop} {action : Action} (hok : ok action.asset.assetId now)
include hok

theorem update_within {a : Asset} {state : AssetState} {reason : Text} {purge : Bool}
    (ha : a.assetId = action.asset.assetId) :
    Within (OnRegistry (Revises ok now)) (liftRegistry do
      let _ ← lifecycleUpdate a state now reason purge
      return true) :=
  liftRegistry_within
    (Within.bind (Revises.lifecycleUpdate (ha.symm ▸ hok) le_rfl) fun _ => Within.pure)

/-- The first block of an action changes at most its asset, which gets the instant of the sweep. -/
theorem transitionLocked_within :
    Within (OnRegistry (Revises ok now)) (alone (transitionLocked arith policy now action)) := by
  refine withAssetLock_within fun current hid => ?_
  have skip :
      ∀ b, Within (OnRegistry (Revises ok now)) (liftRegistry (pure b : RegM Bool)) := fun _ =>
    liftRegistry_within Within.pure
  have due : Within (OnRegistry (Revises ok now)) (alone (stillDue arith policy action)) := by
    unfold stillDue
    split
    · simp only [alone_bind, alone_registry, alone_check]
      exact Within.bind (liftRegistry_within Within.partitionQuota) fun _ => Within.attempt
    · split
      · simp only [alone_bind, alone_registry, alone_check, alone_pure]
        exact Within.bind (liftRegistry_within Within.bucketQuota) fun _ =>
          Within.bind Within.attempt fun _ => Within.bind Within.attempt fun _ => Within.pure
      · exact Within.pure
  split
  · simp only [alone_pure, pure_bind]
    exact skip _
  · simp only [alone_bind, bind_assoc]
    refine Within.bind due fun b => ?_
    split
    · simp only [alone_pure, pure_bind]
      exact skip _
    · split
      · simp only [alone_pure, pure_bind]
        exact update_within hok hid
      · simp only [alone_pure, pure_bind]
        exact skip _

/-- The second block of a purge changes at most its asset, which gets the instant of the sweep. -/
theorem purgeLocked_within :
    Within (OnRegistry (Revises ok now)) (alone (purgeLocked now action)) := by
  refine withAssetLock_within fun fenced hid => ?_
  split
  · simp only [alone_pure, pure_bind]
    exact liftRegistry_within Within.pure
  · simp only [alone_bind, alone_check, alone_perform, alone_pure, bind_assoc, pure_bind]
    exact Within.bind Within.attempt fun _ => Within.bind (apart_within fun _ => rfl) fun _ =>
      update_within hok hid

end Revisions

/-! ### Turns -/

/-- What a sweep at the instant `now` has left to do: the assets that it may still look at, and the
one between whose blocks it is. -/
inductive SweepAt (arith : Arithmetic) (policy : SweepPolicy) (now : Time) :
    (Text → Prop) → Option Text → GuardProg SweepReport → Prop
  | listing : SweepAt arith policy now (fun _ => True) none
      (planSweep arith policy now >>= resumeSweep arith policy now)
  | reading {assets : List Asset} {keys : List (Text × Text)} {plan : Plan}
      (distinct : DistinctIds assets) (once : plan.selected.Nodup) :
      SweepAt arith policy now (fun _ => True) none
        ((evictQuotas arith policy now assets keys plan).andThen
          (Prog.onOk (resumePlan arith policy now assets)))
  | applying {rest : List Action} {report : SweepReport}
      (once : (rest.map fun action => action.asset.assetId).Nodup) :
      SweepAt arith policy now (fun id => id ∈ rest.map fun action => action.asset.assetId) none
        (applyActions arith policy now rest report)
  | fenced {action : Action} {rest : List Action} {report : SweepReport}
      (once : ((action :: rest).map fun action => action.asset.assetId).Nodup) :
      SweepAt arith policy now (fun id => id ∈ rest.map fun action => action.asset.assetId)
        (some action.asset.assetId)
        ((purgeLocked now action).andThen (resumeActions arith policy now rest report))
  | finished {future : Text → Prop} {r : Except Err SweepReport} :
      SweepAt arith policy now future none (.ret r)

theorem resumeActions_applying {rest : List Action} {report : SweepReport}
    (once : (rest.map fun action => action.asset.assetId).Nodup) (r : Except Err Bool) :
    SweepAt arith policy now (fun id => id ∈ rest.map fun action => action.asset.assetId) none
      (resumeActions arith policy now rest report r) := by
  cases r with
  | ok applied => exact .applying once
  | error e => exact .applying once

theorem evictPressures_once {assets : List Asset} (distinct : DistinctIds assets)
    {capacities : List (Text × Int)} {plan plan' : Plan} (once : plan.selected.Nodup)
    (h : capacities.foldlM (fun plan c => plan.evictPressure arith policy now assets c.1 c.2) plan =
      .ok plan') : plan'.selected.Nodup := by
  refine foldlM_invariant (P := fun plan => plan.selected.Nodup) once
    (fun plan c plan' once hlook => ?_) h
  have hlook' : plan.look arith policy now (fun space partitionId => { space, partitionId }) assets
      (.bucket c.1 c.2) = .ok plan' := hlook
  obtain ⟨-, rfl⟩ := Plan.look_eq_ok.mp hlook'
  exact Plan.visit_once distinct once

/-- What a turn of a sweep does: it goes on, it gives its instant to an asset that it will not look
at again, and it changes no other asset. -/
structure SweepTurn (arith : Arithmetic) (policy : SweepPolicy) (now : Time) (future : Text → Prop)
    (fenced : Option Text)
    (g : GuardState) (p' : GuardProg SweepReport) (g' : GuardState) (future' : Text → Prop)
    (fenced' : Option Text) : Prop where
  remains : SweepAt arith policy now future' fenced' p'
  shrinks : ∀ id, future' id → future id
  fences : ∀ id, fenced' = some id → future id ∨ fenced = some id
  revised : Revised (fun id t => t = now ∧ (future id ∨ fenced = some id) ∧ ¬future' id)
    g.session g'.session

/-- A turn of a sweep and of what it goes on to. -/
def TurnsTo (arith : Arithmetic) (policy : SweepPolicy) (now : Time) (future : Text → Prop)
    (fenced : Option Text)
    (k : Except Err SweepReport → GuardProg β) (p : GuardProg SweepReport)
    (g : GuardState) : Prop :=
  ∃ p' g' future' fenced', (p.andThen k).turn lockBlocks Cmd.sem g = (p'.andThen k, g') ∧
    SweepTurn arith policy now future fenced g p' g' future' fenced'

section Turns

variable {future : Text → Prop} {fenced : Option Text}
  {k : Except Err SweepReport → GuardProg β} {g : GuardState}

/-- A turn that executes an atomic part of the sweep. -/
theorem TurnsTo.of_atomic (future' : Text → Prop) {α : Type} {q : GuardProg α}
    {K : Except Err α → GuardProg SweepReport} (atomic : q.Atomic lockBlocks Cmd.sem)
    (remains : ∀ r, (resultOf (alone q g)).1 = r →
      ∃ fenced', SweepAt arith policy now future' fenced' (K r) ∧
      ∀ id, fenced' = some id → future id ∨ fenced = some id)
    (shrinks : ∀ id, future' id → future id)
    (within : Within (OnRegistry (Revises
      (fun id t => t = now ∧ (future id ∨ fenced = some id) ∧ ¬future' id) now)) (alone q))
    (hg : Running now g.session) : TurnsTo arith policy now future fenced k (q.andThen K) g := by
  obtain ⟨fenced', hremains, hfences⟩ := remains _ rfl
  refine ⟨_, (resultOf (alone q g)).2, future', fenced', ?_, hremains, shrinks, hfences, ?_⟩
  · rw [Prog.andThen_assoc]
    exact atomic _ g
  · rw [resultOf_snd]
    exact within g hg

theorem TurnsTo.finished (hk : ∀ r, ∃ r', k r = .ret r') {r : Except Err SweepReport}
    (hg : Running now g.session) : TurnsTo arith policy now future fenced k (.ret r) g := by
  obtain ⟨r', hr'⟩ := hk r
  refine ⟨.ret r, g, future, none, ?_, .finished, fun _ h => h, (fun _ h => by cases h),
    .of_assets hg (Closed.refl _) rfl⟩
  change (k r).turn lockBlocks Cmd.sem g = (k r, g)
  rw [hr']
  rfl

theorem applyActions_turn (hk : ∀ r, ∃ r', k r = .ret r') {rest : List Action}
    {report : SweepReport}
    (once : (rest.map fun action => action.asset.assetId).Nodup)
    (hfuture : ∀ id ∈ rest.map fun action => action.asset.assetId, future id)
    (hg : Running now g.session) :
    TurnsTo arith policy now future fenced k (applyActions arith policy now rest report) g := by
  cases rest with
  | nil => exact .finished hk hg
  | cons action rest =>
    obtain ⟨hfirst, hrest⟩ := List.nodup_cons.mp once
    have hlooked : future action.asset.assetId := hfuture _ List.mem_cons_self
    rw [applyActions_cons]
    refine .of_atomic (fun id => id ∈ rest.map fun action => action.asset.assetId)
      transitionLocked_atomic (fun r _ => ?_)
        (fun id hid => hfuture id (List.mem_cons_of_mem _ hid))
      (transitionLocked_within ⟨rfl, .inl hlooked, hfirst⟩) hg
    cases r with
    | error e => exact ⟨none, resumeActions_applying hrest (.error e), fun _ h => by cases h⟩
    | ok moved =>
      by_cases hpurge : moved = true ∧ action.purge = true
      · refine ⟨some action.asset.assetId, ?_, fun id h => .inl (Option.some.inj h ▸ hlooked)⟩
        simp only [Prog.onOk, if_pos hpurge]
        exact .fenced once
      · refine ⟨none, ?_, fun _ h => by cases h⟩
        simp only [Prog.onOk, if_neg hpurge]
        exact resumeActions_applying hrest (.ok moved)

theorem planSweep_resume : planSweep arith policy now >>= resumeSweep arith policy now =
    (registry listAssets).andThen (Prog.onOk fun assets =>
      (evictQuotas arith policy now assets (sweptPartitions assets)
        (duePlan arith policy now assets)).andThen
        (Prog.onOk (resumePlan arith policy now assets))) := by
  rw [planSweep]
  simp only [Prog.bind_eq_andThen, Prog.andThen_assoc]
  refine congrArg _ (funext fun r => ?_)
  cases r with
  | error e => rfl
  | ok assets =>
    simp only [Prog.onOk, Prog.andThen_assoc]
    refine congrArg _ (funext fun r => ?_)
    cases r <;> rfl

/-- One turn of a sweep. -/
theorem SweepAt.turn {p : GuardProg SweepReport} (h : SweepAt arith policy now future fenced p)
    (hk : ∀ r, ∃ r', k r = .ret r') (hg : Running now g.session) :
    TurnsTo arith policy now future fenced k p g := by
  have read : ∀ {α : Type} {m : RegM α} {future' : Text → Prop}, Keeps (fun r => r) m →
      Within Later m →
      Within (OnRegistry (Revises (fun id t => t = now ∧ (future id ∨ fenced = some id) ∧
        ¬future' id) now))
        (alone (registry m)) := by
    intro α m future' keeps clock
    rw [alone_registry]
    exact liftRegistry_within (Revises.of_keeps keeps clock)
  cases h with
  | listing =>
    rw [planSweep_resume]
    refine .of_atomic _ registry_atomic (fun r hr => ?_) (fun _ h => h)
      (read (Within.bind Within.tables fun _ => Within.pure)
        (Within.bind Within.tables fun _ => Within.pure)) hg
    cases r with
    | error e => exact ⟨none, .finished, fun _ h => by cases h⟩
    | ok assets =>
      obtain rfl : g.reg.listed = assets := Except.ok.inj hr
      have distinct : DistinctIds g.reg.listed :=
        DistinctIds.filter (Dict.values_nodup_map hg.filed) _
      exact ⟨none, .reading distinct (duePlan_selected distinct), fun _ h => by cases h⟩
  | @reading assets keys plan distinct once =>
    cases keys with
    | nil =>
      change TurnsTo _ _ _ _ _ _ (resumePlan arith policy now assets plan) g
      unfold resumePlan
      cases hplan : policy.capacities.foldlM
          (fun plan c => plan.evictPressure arith policy now assets c.1 c.2) plan with
      | error e => exact .finished hk hg
      | ok plan' =>
        exact applyActions_turn hk (evictPressures_once distinct once hplan) (fun _ _ => trivial) hg
    | cons key rest =>
      have hprog : (evictQuotas arith policy now assets (key :: rest) plan).andThen
          (Prog.onOk (resumePlan arith policy now assets)) =
          (registry (partitionQuota key.1 key.2)).andThen (Prog.onOk fun quota =>
            (check (plan.evictQuota arith policy now assets key quota)).andThen
              (Prog.onOk fun plan' => (evictQuotas arith policy now assets rest plan').andThen
                (Prog.onOk (resumePlan arith policy now assets)))) := by
        rw [evictQuotas, Prog.bind_eq_andThen, Prog.andThen_assoc]
        refine congrArg _ (funext fun r => ?_)
        cases r with
        | error e => rfl
        | ok quota =>
          simp only [Prog.onOk, Prog.bind_eq_andThen, Prog.andThen_assoc]
          refine congrArg _ (funext fun r => ?_)
          cases r <;> rfl
      rw [hprog]
      refine .of_atomic _ registry_atomic (fun r _ => ?_) (fun _ h => h)
        (read Within.partitionQuota Within.partitionQuota) hg
      cases r with
      | error e => exact ⟨none, .finished, fun _ h => by cases h⟩
      | ok quota =>
        refine ⟨none, ?_, fun _ h => by cases h⟩
        cases hlook : plan.look arith policy now (fun _ _ => quota) assets
          (.partition key.1 key.2) with
        | error e =>
          have hraises : plan.evictQuota arith policy now assets key quota = .error e := hlook
          simp only [Prog.onOk, hraises]
          exact .finished
        | ok plan' =>
          obtain ⟨-, hvisit⟩ := Plan.look_eq_ok.mp hlook
          have hreturns : plan.evictQuota arith policy now assets key quota = .ok plan' := hlook
          simp only [Prog.onOk, hreturns]
          exact .reading distinct (hvisit ▸ Plan.visit_once distinct once)
  | @applying rest report once => exact applyActions_turn hk once (fun _ h => h) hg
  | @fenced action rest report once =>
    obtain ⟨hfirst, hrest⟩ := List.nodup_cons.mp once
    refine .of_atomic _ purgeLocked_atomic (fun r _ => ?_) (fun _ h => h)
      (purgeLocked_within ⟨rfl, .inr rfl, hfirst⟩) hg
    exact ⟨none, resumeActions_applying hrest r, fun _ h => by cases h⟩
  | finished => exact .finished hk hg

end Turns

end AssetStore
