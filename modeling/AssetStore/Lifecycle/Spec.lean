import AssetStore.Lifecycle.Reading

/-! What a sweep consists of: readings of the tables, blocks under the lock of one asset, and in
them the maintenance updates that the policy calls for at the instant of the sweep. -/

namespace AssetStore

open Lib

variable {arith : Arithmetic} {policy : SweepPolicy} {given : Option Time} {now : Time}

/-- An expired asset has waited for the grace period of its space. -/
def GraceElapsed (arith : Arithmetic) (policy : SweepPolicy) (now : Time) (a : Asset) : Prop :=
  a.state = .expired →
    (policy.graceSeconds a.space : Rat) ≤ arith.totalSeconds now (a.expiredAt.getD a.updatedAt)

/-- What a plan may hold: an expiry, or the purge of an asset that is not live. -/
inductive Action.Planned (arith : Arithmetic) (policy : SweepPolicy) (now : Time) : Action → Prop
  | expire {a : Asset} {reason : Text} :
      Planned arith policy now { asset := a, state := .expired, reason }
  | purge {a : Asset} {reason : Text} (elapsed : GraceElapsed arith policy now a) :
      Planned arith policy now { asset := a, state := .deleted, reason, purge := true }

/-- The statements of a sweep. -/
inductive SweepCmd (arith : Arithmetic) (policy : SweepPolicy) (now : Time) :
    (β : Type) → Cmd β → Prop
  | read {β : Type} {m : RegM β} (keeps : Keeps (fun r => r) m) :
      SweepCmd arith policy now β (.registry m)
  | enter {id : Text} : SweepCmd arith policy now Asset (.enterLock id)
  | quit {id : Text} : SweepCmd arith policy now Unit (.breakLock id)
  | erase {location : ObjectStoreLocation} : SweepCmd arith policy now Unit (.deleteObject location)
  | skip {id : Text} {b : Bool} : SweepCmd arith policy now Bool (.closeLock id (pure b))
  | expire {id : Text} {a : Asset} {reason : Text} :
      SweepCmd arith policy now Bool (.closeLock id do
        let _ ← lifecycleUpdate a .expired now reason
        return true)
  | retire {id : Text} {a : Asset} {reason : Text} (elapsed : GraceElapsed arith policy now a) :
      SweepCmd arith policy now Bool (.closeLock id do
        let _ ← lifecycleUpdate a .deleted now reason
        return true)
  | purge {id : Text} {a : Asset} {reason : Text} (deleted : a.state = .deleted) :
      SweepCmd arith policy now Bool (.closeLock id do
        let _ ← lifecycleUpdate a .deleted now reason true
        return true)

/-! ### Plans -/

/-- Every action of the plan is one that a sweep may take. -/
def Plan.Sound (arith : Arithmetic) (policy : SweepPolicy) (now : Time) (plan : Plan) : Prop :=
  ∀ action ∈ plan.actions, action.Planned arith policy now

theorem dueAction_planned {a : Asset} {action : Action}
    (h : dueAction arith policy now a = some action) :
    action.Planned arith policy now := by
  unfold dueAction at h
  split at h
  · rename_i hstate
    split at h
    · obtain rfl := Option.some.inj h
      exact .purge fun hexpired => by simp [hstate] at hexpired
    · cases h
  · split at h
    · obtain rfl := Option.some.inj h
      exact .expire
    · cases h
  · split at h
    · obtain rfl := Option.some.inj h
      exact .purge fun _ => ‹_›
    · cases h
  · rename_i hstate
    split at h
    · obtain rfl := Option.some.inj h
      exact .purge fun hexpired => by simp [hstate] at hexpired
    · cases h

/-- A look at a group adds expiries only. -/
theorem Plan.Sound.look {plan plan' : Plan} {assets : List Asset}
    (quota : Text → Text → PartitionQuota) (g : SweptGroup) (h : plan.Sound arith policy now)
    (hlook : plan.look arith policy now quota assets g = .ok plan') :
    plan'.Sound arith policy now := by
  obtain ⟨-, rfl⟩ := Plan.look_eq_ok.mp hlook
  intro action hmem
  unfold Plan.visit at hmem
  split at hmem
  · rcases List.mem_append.mp hmem with hold | hnew
    · exact h action hold
    · obtain ⟨a, -, rfl⟩ := List.mem_map.mp hnew
      exact .expire
  · exact h action hmem

variable {P : (β : Type) → Cmd β → Prop}

theorem evictQuotas_all (read : ∀ {β : Type} {m : RegM β}, Keeps (fun r => r) m → P β (.registry m))
    {assets : List Asset} : ∀ {keys : List (Text × Text)} {plan : Plan},
    plan.Sound arith policy now →
      (evictQuotas arith policy now assets keys plan).All P (Plan.Sound arith policy now)
  | [], _, h => .pure h
  | key :: _, _, h => .bind (.perform (read Within.partitionQuota)) fun quota _ =>
    .bind (fun _ hlook => .look (fun _ _ => quota) (.partition key.1 key.2) h hlook) fun _ hplan =>
      evictQuotas_all read hplan

/-- A plan is made from readings of the registry. -/
theorem planSweep_all (read : ∀ {β : Type} {m : RegM β}, Keeps (fun r => r) m → P β (.registry m)) :
    (planSweep arith policy now).All P (Plan.Sound arith policy now) := by
  refine .bind (.perform (read (Within.bind Within.tables fun _ => Within.pure))) fun assets _ => ?_
  refine .bind (evictQuotas_all read fun action hmem => ?_) fun plan hplan plan' h => ?_
  · obtain ⟨a, -, hdue⟩ := List.mem_filterMap.mp hmem
    exact dueAction_planned hdue
  · refine foldlM_invariant hplan (fun _ c _ hp hlook => ?_) h
    exact .look (fun space partitionId => { space, partitionId }) (.bucket c.1 c.2) hp hlook

/-! ### Actions -/

theorem withAssetLock_sweep {id : Text} {body : Asset → GuardProg (RegM Bool)}
    (h : ∀ a, (body a).All (SweepCmd arith policy now) fun m =>
      SweepCmd arith policy now Bool (.closeLock id m)) :
    (withAssetLock id body).All (SweepCmd arith policy now) fun _ => True := by
  refine .bind (.perform .enter) fun a _ => .cleaningUp ?_ (.perform .quit)
  exact .bind (h a) fun last hlast => .perform hlast

theorem stillDue_all (read : ∀ {β : Type} {m : RegM β}, Keeps (fun r => r) m → P β (.registry m))
    {action : Action} : (stillDue arith policy action).All P fun _ => True := by
  unfold stillDue
  refine .ite ?_ (.ite ?_ (.pure trivial))
  · exact .bind (.perform (read Within.partitionQuota)) fun _ _ => .ret
  · exact .bind (.perform (read Within.bucketQuota)) fun _ _ => .bind .ret fun _ _ =>
      .bind .ret fun _ _ => .ret

theorem transitionLocked_all {action : Action} (h : action.Planned arith policy now) :
    (transitionLocked arith policy now action).All (SweepCmd arith policy now) fun _ => True := by
  refine withAssetLock_sweep fun current => ?_
  by_cases hsame : current ≠ action.asset
  · simp only [if_pos hsame]
    exact .pure .skip
  · obtain rfl : current = action.asset := not_not.mp hsame
    simp only [if_neg hsame]
    refine .bind (stillDue_all .read) fun due _ =>
      .ite (.pure .skip) (.ite (.pure ?_) (.pure .skip))
    cases h with
    | expire => exact .expire
    | purge elapsed => exact .retire elapsed

theorem purgeLocked_all {action : Action} :
    (purgeLocked now action).All (SweepCmd arith policy now) fun _ => True := by
  refine withAssetLock_sweep fun fenced => .ite (.pure .skip) ?_
  by_cases hdeleted : fenced.state = .deleted
  · exact .bind .ret fun _ _ => .bind (.perform .erase) fun _ _ => .pure (.purge hdeleted)
  · have hraise : ∀ e : Err, raiseIf (fenced.state ≠ .deleted) e = .error e :=
      fun e => if_pos hdeleted
    rw [hraise]
    exact fun _ he => by cases he

theorem applyAction_all {action : Action} (h : action.Planned arith policy now) :
    (applyAction arith policy now action).All (SweepCmd arith policy now) fun _ => True :=
  .bind (transitionLocked_all h) fun _ _ => .ite purgeLocked_all .ret

theorem applyActions_all : ∀ {actions : List Action} {report : SweepReport},
    (∀ action ∈ actions, action.Planned arith policy now) →
    (applyActions arith policy now actions report).All (SweepCmd arith policy now) fun _ => True
  | [], _, _ => .ret
  | action :: rest, _, h => by
    have hfirst := applyAction_all (h action List.mem_cons_self)
    refine .bind (.tryCatch (.bind hfirst fun _ _ => .ret) fun _ => .ret) fun _ _ => ?_
    exact applyActions_all fun a ha => h a (List.mem_cons_of_mem _ ha)

/-- A sweep consists of its statements, all at one instant: the one that it is given, or the one
that it reads. -/
theorem runSweep_all {dryRun : Bool} :
    (runSweep arith policy dryRun given).All
      (fun β c => ∃ now, (∀ t ∈ given, now = t) ∧ SweepCmd arith policy now β c) fun _ => True := by
  have instant : (nowOr given).All
      (fun β c => ∃ now, (∀ t ∈ given, now = t) ∧ SweepCmd arith policy now β c)
      fun now => ∀ t ∈ given, now = t := by
    cases given with
    | some t => exact .pure (by simp)
    | none => exact ⟨⟨0, by simp, .read Within.utcnow⟩, fun _ _ _ => by simp⟩
  refine .bind instant fun now hnow => ?_
  refine Prog.All.mono (P := SweepCmd arith policy now) ?_ fun β c hc => ⟨now, hnow, hc⟩
  exact .bind (planSweep_all .read) fun plan hplan => .ite .ret (applyActions_all hplan)

end AssetStore
