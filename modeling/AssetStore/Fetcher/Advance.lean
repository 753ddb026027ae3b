import AssetStore.Fetcher.Idempotence
import AssetStore.Registry.States

/-! A request that runs alone moves the registry on by calls, whether it returns or raises. So what
a run of calls keeps is kept by the requests of the fetcher. -/

namespace AssetStore

open Lib

/-- The registry was moved on by calls. -/
def Led (env : Env) (g g' : GuardState) : Prop := Leads env g.reg g'.reg

/-- The same, for a session of the registry. -/
def LedSession (env : Env) (s s' : Session) : Prop := Leads env s.reg s'.reg

/-- The same, for the whole process. -/
def LedApp (env : Env) (app app' : App) : Prop := Leads env app.guard.reg app'.guard.reg

section Led

variable {env : Env}

theorem Leads.trans {r r' r'' : Registry} (h : Leads env r r') (h' : Leads env r' r'') :
    Leads env r r'' :=
  Trans.trans h h'

instance : Frame (LedSession env) where
  refl s := Leads.refl s.reg
  trans h h' := Leads.trans h h'
  tick s := Leads.refl s.reg

instance : Closed (Led env) where
  refl g := Leads.refl g.reg
  trans h h' := Leads.trans h h'

instance : Closed (LedApp env) where
  refl app := Leads.refl app.guard.reg
  trans h h' := Leads.trans h h'

/-- An operation that is a call. -/
theorem led_of_op {α : Type} {m : RegM α} {s : Session} (op : Op) (fresh : op.Fresh s.reg)
    (final_eq : (final (m s)).reg = (final (op.run env s)).reg) :
    LedSession env s (final (m s)) := by
  have hcall : Leads env s.reg (op.exec env s.clock s.reg) := .call fresh
  rwa [Op.exec, ← final_eq] at hcall

theorem led_commitAsset {id checksum caller : Text} {size : Int} {mime expected : Option Text} :
    Within (LedSession env) (commitAsset env id size checksum caller mime expected) := fun s =>
  led_of_op (.commitAsset id size checksum caller mime expected) trivial
    (by simp only [Op.run, final_bind_pure])

theorem led_lifecycleUpdate {a : Asset} {state : AssetState} {now : Time} {reason : Text}
    {purge : Bool} :
    Within (LedSession env) (lifecycleUpdate a state now reason purge) := fun s =>
  led_of_op (.lifecycleUpdate a state now reason purge) trivial
    (by simp only [Op.run, final_bind_pure])

theorem led_recordCapabilityIssue {caller op scope outcome : Text} {ttl : Int}
    {capId : Option Text} :
    Within (LedSession env) (recordCapabilityIssue env caller op scope ttl outcome capId) :=
  fun s =>
  led_of_op (.recordCapabilityIssue caller op scope ttl outcome capId) trivial
    (by simp only [Op.run, final_bind_pure])

theorem led_registry {α : Type} {m : RegM α} (h : Within (LedSession env) m) :
    Within (Led env) (liftRegistry m) := fun g => by
  rw [final_liftRegistry]
  exact h g.session

theorem led_ledgerStep {step : Ledger → Time → Except Err Unit × Ledger} :
    Within (Led env) (ledgerStep step) := fun g => by
  rw [final_ledgerStep]
  exact Leads.refl g.reg

/-- A statement that leaves the registry alone. -/
theorem led_of_same {α : Type} {m : GuardM α} (h : ∀ g, (final (m g)).reg = g.reg) :
    Within (Led env) m := fun g => by
  unfold Led
  rw [h]
  exact Leads.refl g.reg

/-- The statement moves the registry on by calls. -/
abbrev Cmd.Leads (env : Env) (β : Type) (c : Cmd β) : Prop := Within (Led env) (c.sem β)

theorem led_withAssetLock {α : Type} {id : Text} {body : Asset → GuardProg (RegM α)}
    (h : ∀ a, (body a).All (Cmd.Leads env) fun m => Within (LedSession env) m) :
    (withAssetLock id body).All (Cmd.Leads env) fun _ => True := by
  refine .bind (Q := fun _ => True) (.perform (led_registry Within.getAsset)) fun a _ => ?_
  refine .cleaningUp (.bind (h a) fun m hm => .perform (led_registry hm)) ?_
  exact .perform (led_of_same fun _ => rfl)

theorem led_uploadLocked {cap : Capability} {id : Text} {location : ObjectStoreLocation}
    {data : List UInt8}
    {opts : WriteOptions} :
    (uploadLocked env cap id location data opts).All (Cmd.Leads env) fun _ => True := by
  refine led_withAssetLock fun a => .bind (Q := fun _ => True) .ret fun _ _ => ?_
  refine .bind (Q := fun _ => True) (.perform (led_of_same fun _ => rfl)) fun stat _ => ?_
  exact .pure led_commitAsset

theorem led_fenceUpload {id : Text} : (fenceUpload id).All (Cmd.Leads env) fun _ => True := by
  refine led_withAssetLock fun a => .ite ?_ ?_
  · refine .bind (Q := fun _ => True) (.perform (led_registry Within.utcnow)) fun now _ => ?_
    exact .pure (Within.bind led_lifecycleUpdate fun _ => Within.pure)
  · exact .pure Within.pure

theorem led_purgeUpload {id : Text} {location : ObjectStoreLocation} :
    (purgeUpload id location).All (Cmd.Leads env) fun _ => True := by
  refine led_withAssetLock fun a => .ite ?_ ?_
  · exact .pure Within.pure
  · refine .bind (Q := fun _ => True) (.perform (led_of_same fun _ => rfl)) fun _ _ => ?_
    refine .bind (Q := fun _ => True) (.perform (led_registry Within.utcnow)) fun now _ => ?_
    exact .pure (Within.bind led_lifecycleUpdate fun _ => Within.pure)

theorem led_cleanupFailedUpload {id : Text} {location : ObjectStoreLocation} :
    (cleanupFailedUpload id location).All (Cmd.Leads env) fun _ => True := by
  refine .tryCatch (.bind led_fenceUpload fun removable _ => ?_) fun _ => .ret
  split
  · exact led_purgeUpload
  · exact .ret

theorem led_authorize {cap : Capability} {op : Operation} {aliasName : Text} :
    (authorize cap op aliasName).All (Cmd.Leads env) fun _ => True := by
  have hunused : Cmd.Leads env Unit (.assertUnused cap) :=
    show Within (Led env) (ledgerStep fun l now => l.assertUnused cap now) from led_ledgerStep
  refine .bind (Q := fun _ => True) .ret fun parsed _ => ?_
  refine .bind (Q := fun _ => True) (.perform (led_registry Within.utcnow)) fun now _ => ?_
  refine .bind (Q := fun _ => True) .ret fun _ _ => ?_
  refine .bind (Q := fun _ => True) (.perform hunused) fun _ _ => ?_
  exact .bind (Q := fun _ => True) .ret fun _ _ => .ret

/-- A write leads from one registry to the other when its id is new. -/
theorem led_writeObject {newId aliasName : Text} {cap : Capability} {data : List UInt8}
    {opts : WriteOptions}
    {g : GuardState} (fresh : g.reg.assets.get newId = none) :
    Led env g (final (alone (writeObject env newId cap aliasName data opts) g)) := by
  have hused : Cmd.Leads env Unit (.recordSuccessfulUse cap) :=
    show Within (Led env) (ledgerStep fun l now => l.recordSuccessfulUse cap now)
      from led_ledgerStep
  rw [writeObject, alone_bind]
  refine Lib.final_bind (P := Led env g) (fun _ _ hraised => led_authorize.run_within.error hraised)
    fun parsed g1 hparsed => ?_
  obtain ⟨-, -, hreg, -, -⟩ := authorize_eq_ok hparsed
  -- the reservation is the one call that must be fresh
  have hreserve : ∀ req out, alone (.perform (.reserveAsset env newId req)) g1 = out →
      Led env g (final out) := by
    rintro req _ rfl
    rw [alone_perform]
    show Leads env g.reg (final (liftRegistry (reserveAsset env newId req) g1)).reg
    rw [final_liftRegistry, ← hreg]
    have hnew : g1.reg.assets.get newId = none := hreg ▸ fresh
    exact led_of_op (s := g1.session) (.reserveAsset newId req) hnew
      (by simp only [Op.run, final_bind_pure])
  rw [alone_bind]
  refine Lib.final_bind (P := Led env g) (fun e g2 hraised => ?_) fun pending g2 hpending => ?_
  · exact hreserve _ _ hraised
  · have hfinal : Led env g g2 := hreserve _ _ hpending
    refine Closed.trans (R := Led env) hfinal (Prog.All.run_within (Q := fun _ => True) ?_ g2)
    refine .bind (Q := fun _ => True) .ret fun location _ => ?_
    refine .bind (Q := fun _ => True) (.cleaningUp led_uploadLocked led_cleanupFailedUpload)
      fun asset _ => ?_
    exact .bind (Q := fun _ => True) (.perform hused) fun _ _ => .ret

theorem led_guarded {α : Type} {p : GuardProg α} {app : App}
    (h : Led env app.guard (final (alone p app.guard))) :
    LedApp env app (final (guarded p app)) := by
  unfold guarded
  cases hp : alone p app.guard with
  | ok a g =>
    rw [hp] at h
    exact h
  | error e g =>
    rw [hp] at h
    exact h

theorem led_guarded_registry {α : Type} {m : RegM α} (h : Within (LedSession env) m) :
    Within (LedApp env) (guarded (registry m)) := fun app =>
  led_guarded (by
    rw [alone_registry]
    exact led_registry h app.guard)

theorem led_updateCapabilities {f : Dict Text Capability → Dict Text Capability} :
    Within (LedApp env) (updateCapabilities f) := fun app => Leads.refl app.guard.reg

theorem led_get : Within (LedApp env) (get : AppM App) := fun app => Leads.refl app.guard.reg

theorem led_resolve {caller space aliasName : Text} :
    Within (LedApp env) (resolve caller space aliasName) :=
  Within.bind Within.attempt fun _ => led_guarded_registry Within.resolveAlias

theorem led_mintCapability {cfg : ApiConfig} {capId caller scope : Text}
    {op : Operation} {ttl : Int}
    {single : Bool} :
    Within (LedApp env) (mintCapability cfg env capId caller op scope ttl single) := by
  have hprune : Within (LedApp env) (guarded pruneConsumedCapabilities) := fun app =>
    led_guarded (Prog.All.run_within (Q := fun _ => True) (.perform
      (show Within (Led env) (ledgerStep fun l now => (.ok (), l.prune now)) from led_ledgerStep))
        app.guard)
  refine Within.bind Within.attempt fun _ => Within.bind Within.attempt fun bucket => ?_
  refine Within.bind ?_ fun _ => ?_
  · unfold requireBucketAllowed
    split
    · exact Within.pure
    · exact Within.bind (led_guarded_registry led_recordCapabilityIssue) fun _ => Within.attempt
  · refine Within.bind (led_guarded_registry Within.utcnow) fun _ =>
      Within.bind Within.attempt fun cap => Within.bind hprune fun _ => ?_
    refine Within.bind ?_ fun _ => Within.pure
    refine Within.bind (led_guarded_registry Within.utcnow) fun _ =>
      Within.bind led_updateCapabilities fun _ => Within.bind Within.attempt fun _ => ?_
    exact Within.bind led_get fun _ => Within.bind Within.attempt fun _ =>
      Within.bind (led_guarded_registry led_recordCapabilityIssue) fun _ => led_updateCapabilities

/-- An upload leads from one registry to the other when its id is new. -/
theorem led_putObject {cfg : ApiConfig} {newId token aliasName : Text} {data : List UInt8}
    {mime : Option Text}
    {app : App} {out : EStateM.Result Err App Asset} (fresh : app.guard.reg.assets.get newId = none)
    (run : putObject cfg env newId token aliasName data mime app = out) :
    LedApp env app (final out) := by
  have hrequire : Within (LedApp env) (requireCapability token) :=
    Within.bind (led_guarded_registry Within.utcnow) fun _ =>
      Within.bind led_updateCapabilities fun _ => Within.bind led_get fun _ => Within.attempt
  have hauthorize : ∀ cap, Within (LedApp env) (guarded (authorizeWrite cap aliasName)) :=
    fun cap app =>
    led_guarded (Prog.All.run_within (Q := fun _ => True)
      (.bind led_authorize fun _ _ => .ret) app.guard)
  subst run
  unfold putObject
  refine Lib.final_bind (P := LedApp env app)
    (fun _ _ hraised => hrequire.error hraised) fun cap app1 h1 => ?_
  refine Closed.trans (R := LedApp env) (hrequire.ok h1) ?_
  have hfresh1 : app1.guard.reg.assets.get newId = none := by
    rw [(calm_requireCapability.ok h1).2.1]
    exact fresh
  refine Lib.final_bind (P := LedApp env app1) (fun _ _ hraised => (hauthorize cap).error hraised)
    fun _ app2 h2 => ?_
  refine Closed.trans (R := LedApp env) ((hauthorize cap).ok h2) ?_
  have hfresh2 : app2.guard.reg.assets.get newId = none := by
    rw [((calm_guarded calm_authorizeWrite).ok h2).2.1]
    exact hfresh1
  refine Lib.final_bind (P := LedApp env app2) (fun _ _ hraised => Within.attempt.error hraised)
    fun _ app3 h3 => ?_
  obtain ⟨-, rfl⟩ := attempt_eq_ok.mp h3
  exact led_guarded (led_writeObject hfresh2)

end Led

end AssetStore
