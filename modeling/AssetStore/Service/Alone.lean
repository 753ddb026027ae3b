import AssetStore.Registry.Requests
import AssetStore.Service

/-! Requests that run alone. The front that the clients call performs the requests of the service
one at a time, in a process whose rate limiter admits them: its mint, its put and its lookup are
those endpoints, run with no other. -/

namespace AssetStore

open Lib

variable {α β : Type}

/-! ### The statements, run alone -/

section Front

variable {cfg : ApiConfig} (room : 0 < cfg.maxCapabilities)

/-- The published capabilities of the process. -/
def App.bearers (app : App) : CapabilityStore :=
  { maxCapabilities := cfg.maxCapabilities, capabilities := app.capabilities
    max_pos := by exact_mod_cast room }

/-- What a call of the store makes of the process. -/
def ofStore : EStateM.Result Err (CapabilityStore × GuardState) α → EStateM.Result Err App α
  | .ok a (s, g) => .ok a { guard := g, capabilities := s.capabilities }
  | .error e (s, g) => .error e { guard := g, capabilities := s.capabilities }

/-- The guard after a clock reading. -/
def GuardState.tick (g : GuardState) : GuardState := { g with clock := fun n => g.clock (n + 1) }

/-- A statement of the guard. -/
def onGuard (m : GuardM β) : AppM β := fun app =>
  match m app.guard with
  | .ok b g => .ok b { app with guard := g }
  | .error e g => .error e { app with guard := g }

/-- A call of the bearer store at the next clock reading. -/
def callStore (call : Time → StoreM GuardState β) : AppM β := fun app =>
  ofStore (call (app.guard.clock 0) (app.bearers room, app.guard.tick))

/-- A statement of the service, run alone in a process whose rate limiter admits it. -/
def ServiceCmd.sem : (β : Type) → ServiceCmd β → AppM β
  | β, .guard c => onGuard (Cmd.sem β c)
  | _, .getCapability token => callStore room fun now => CapabilityStore.get now token
  | _, .countCapabilities => callStore room CapabilityStore.len
  | _, .issueCapability cap onGrant =>
    callStore room fun now => CapabilityStore.issue now cap (alone (registry onGrant))
  | _, .admitIssuance _ => pure ()

/-- The request, run with no other. -/
def runAlone (p : ServiceProg α) : AppM α := p.run (ServiceCmd.sem room)

@[simp] theorem runAlone_ret {r : Except Err α} : runAlone room (.ret r) = attempt r := rfl

@[simp] theorem runAlone_pure {a : α} : runAlone room (pure a) = pure a := rfl

@[simp] theorem runAlone_bind {p : ServiceProg α} {f : α → ServiceProg β} :
    runAlone room (p >>= f) = runAlone room p >>= fun a => runAlone room (f a) := Prog.run_bind

@[simp] theorem runAlone_perform {c : ServiceCmd α} :
    runAlone room (.perform c) = ServiceCmd.sem room α c := Prog.run_perform

/-- A call of the guard from the service is a call of the guard. -/
@[simp] theorem runAlone_callGuard {p : GuardProg α} : runAlone room (callGuard p) = guarded p := by
  induction p with
  | ret r => cases r <;> rfl
  | call c k ih =>
    funext app
    simp only [callGuard, Prog.hoist, runAlone, Prog.run, ServiceCmd.sem, onGuard, guarded, alone]
    cases Cmd.sem _ c app.guard with
    | ok b g => exact congrFun (ih (.ok b)) _
    | error e g => exact congrFun (ih (.error e)) _

@[simp] theorem runAlone_callRegistry {m : RegM α} :
    runAlone room (callRegistry m) = guarded (registry m) :=
  runAlone_callGuard room (p := registry m)

theorem guarded_utcnow (app : App) : guarded (registry utcnow) app =
    .ok (app.guard.clock 0) { app with guard := app.guard.tick } := rfl

/-- A mint issues its capability in the store, with an audit of the guard. -/
theorem issueCapability_eq_callStore (cap : Capability) (audit : GuardProg Unit) :
    issueCapability cfg cap (guarded audit) =
      callStore room fun now => CapabilityStore.issue now cap (alone audit) := by
  funext app
  rw [callStore, issue_eq, ← prune_length]
  unfold issueCapability
  rw [bind_of_ok (guarded_utcnow app)]
  by_cases hexp : cap.expiresAt ≤ app.guard.clock 0
  · simp [updateCapabilities, attempt, raiseIf, hexp, bind, EStateM.bind, ofStore, App.bearers,
      CapabilityStore.prune]
  · by_cases hfull : cfg.maxCapabilities ≤
        (pruneCapabilities (app.guard.clock 0) app.capabilities).keys.length
    · simp [updateCapabilities, attempt, raiseIf, hexp, hfull, bind, EStateM.bind, ofStore,
        App.bearers, CapabilityStore.prune, get_eq]
    · cases hgrant : alone audit app.guard.tick <;>
        simp [updateCapabilities, attempt, raiseIf, hexp, hfull, bind, EStateM.bind, ofStore,
          App.bearers, CapabilityStore.prune, get_eq, guarded,
          hgrant, CapabilityStore.publish]

/-- A bearer header is looked up in the store. -/
theorem requireCapability_eq_callStore (token : Text) :
    requireCapability token = (do
      let found ← callStore room fun now => CapabilityStore.get now token
      attempt (someOr found
        { cls := .capabilityDenied, message := "unknown capability credential" })) := by
  funext app
  cases hfound : (pruneCapabilities (app.guard.clock 0) app.capabilities).get token <;>
    simp [requireCapability, callStore, guarded_utcnow, bind, EStateM.bind, updateCapabilities,
      get_eq, CapabilityStore.get, updateStore, App.bearers, CapabilityStore.prune, attempt, someOr,
      hfound, ofStore, pure, EStateM.pure]

end Front

/-! ### The endpoints, run alone -/

section Endpoints

variable {api : ApiConfig} (room : 0 < api.maxCapabilities) {cfg : ServiceConfig}
  {auth caller token : Text}

theorem attempt_ok_bind {a : α} {f : α → AppM β} : attempt (.ok a) >>= f = f a := rfl

theorem attempt_error_bind {e : Err} {f : α → AppM β} :
    attempt (.error e) >>= f = attempt (.error e) :=
  rfl

theorem resolve_alone {space aliasName : Text}
    (hcaller : requireServiceIdentity cfg.credentials auth = .ok caller) :
    runAlone room (Endpoint.resolve cfg auth space aliasName) = resolve caller space aliasName := by
  simp only [Endpoint.resolve, runAlone_bind, runAlone_ret, runAlone_callRegistry, hcaller,
    attempt_ok_bind]
  rfl

theorem requireCapability_alone (htoken : bearerToken auth = .ok token) :
    runAlone room (Endpoint.requireCapability auth) = requireCapability token := by
  rw [requireCapability_eq_callStore room]
  simp only [Endpoint.requireCapability, runAlone_bind, runAlone_ret, runAlone_perform, htoken,
    attempt_ok_bind]
  rfl

/-- A mint that the rate limiter admits is the mint of the front. -/
theorem mintCapability_alone {capId : Text} {body : CapabilityMintRequest}
    (hcaller : requireServiceIdentity cfg.credentials auth = .ok caller) :
    (do
      let cap ← runAlone room (Endpoint.mintCapability cfg auth capId body)
      return cap.capabilityId) =
      mintCapability api cfg.env capId caller body.operation body.scopePrefix body.ttlSeconds
        body.singleUse := by
  have hbounds : raiseIf (¬(60 ≤ body.ttlSeconds ∧ body.ttlSeconds ≤ 86400))
      ({ cls := .validation, message := "request body or query parameters failed validation" } :
        Err) =
      .ok () := raiseIf_eq_ok.mpr (not_not.mpr body.ttl_bounds)
  simp only [Endpoint.mintCapability, mintCapability, hbounds, runAlone_bind, runAlone_ret,
    runAlone_perform, hcaller, attempt_ok_bind, bind_assoc, requireBucketAllowed, ServiceCmd.sem,
    pure_bind, issueCapability_eq_callStore room]
  refine bind_congr fun bucket => ?_
  cases hallowed : assertServiceBucketAllowed caller bucket body.operation with
  | error e =>
    simp only [runAlone_bind, runAlone_callRegistry, runAlone_ret, bind_assoc,
      attempt_error_bind]
  | ok u =>
    simp only [runAlone_bind, runAlone_callRegistry, runAlone_callGuard, runAlone_ret,
      runAlone_perform, runAlone_pure, ServiceCmd.sem, bind_assoc, pure_bind]

/-! ### Uploads -/

/-- The limit is checked before each chunk, and a body that passes is kept whole. -/
theorem receive_eq {limit : Int} {chunks : List (List UInt8)} {data : List UInt8}
    (kept : (data.length : Int) ≤ limit) :
    Endpoint.receive limit chunks data =
      if limit < (data ++ chunks.flatten).length then
        .error { cls := .uploadTooLarge, message := "proxy upload exceeds configured byte limit" }
      else .ok (data ++ chunks.flatten) := by
  induction chunks generalizing data with
  | nil => simp [Endpoint.receive, kept]
  | cons chunk rest ih =>
    by_cases hfits : limit < data.length + chunk.length
    · have hover : limit < ((data ++ (chunk :: rest).flatten).length : Int) := by
        simp only [List.flatten_cons, List.length_append, Nat.cast_add]
        omega
      rw [if_pos hover]
      simp [Endpoint.receive, raiseIf, hfits]
    · have hkept : ((data ++ chunk).length : Int) ≤ limit := by
        simp only [List.length_append, Nat.cast_add]
        omega
      simp only [Endpoint.receive, raiseIf, hfits, if_false, ih hkept, List.flatten_cons,
        List.append_assoc]
      rfl

/-- An upload leaves an asset in one of the buckets, so its fill can be read. -/
theorem writeObject_bucket {env : Env} {newId aliasName : Text} {cap : Capability}
    {data : List UInt8} {opts : WriteOptions} {g g' : GuardState} {a : Asset}
    (h : alone (writeObject env newId cap aliasName data opts) g = .ok a g') :
    normalizeSpace a.space = .ok a.space := by
  obtain ⟨parsed, pending, s1, s2, g1, hparse, -, -, -, hreserve, hcommit, -⟩ := writeObject_eq_ok h
  obtain ⟨hassets, hid, -, -, hspace, -⟩ := reserveAsset_stores hreserve
  obtain ⟨c, now, hget, -, rfl, -⟩ := commitAsset_eq_ok hcommit
  rw [hassets, hid, Dict.get_set_self] at hget
  obtain rfl := Option.some.inj hget
  exact normalizeBucket_of_mem (normalizeBucket_eq_ok.mp hspace).2

/-- A read of the bucket's fill after an upload changes nothing. -/
theorem bind_bucketQuota {env : Env} {newId aliasName : Text} {cap : Capability}
    {data : List UInt8} {opts : WriteOptions} :
    (do
      let a ← guarded (writeObject env newId cap aliasName data opts)
      let _ ← guarded (registry (bucketQuota a.space))
      return a) = guarded (writeObject env newId cap aliasName data opts) := by
  funext app
  cases hwrite : alone (writeObject env newId cap aliasName data opts) app.guard with
  | error e g =>
    have herror : guarded (writeObject env newId cap aliasName data opts) app =
        .error e { app with guard := g } := by rw [guarded, hwrite]
    rw [bind_of_error herror, herror]
  | ok a g =>
    have hok : guarded (writeObject env newId cap aliasName data opts) app =
        .ok a { app with guard := g } := by rw [guarded, hwrite]
    have hquota : guarded (registry (bucketQuota a.space)) { app with guard := g } =
        .ok (g.reg.bucketAt a.space) { app with guard := g } := by
      rw [guarded, alone_registry, liftRegistry, bucketQuota,
        bind_of_ok (attempt_of_ok (writeObject_bucket hwrite))]
      rfl
    rw [bind_of_ok hok, bind_of_ok hquota, hok]
    rfl

/-- An upload without options, whose declared size is the one it has, is the put of the front. -/
theorem writeObject_alone {newId : Text} {upload : Upload}
    (htoken : bearerToken auth = .ok token) (limit : cfg.maxUploadBytes = api.maxUploadBytes)
    (declared : ∀ size ∈ upload.declaredSize, size = some (upload.chunks.flatten.length : Int))
    (plain : upload.mutable = false ∧ upload.expectedChecksum = none ∧ upload.ttlSeconds = none) :
    runAlone room (Endpoint.writeObject cfg auth newId upload) =
      putObject api cfg.env newId token upload.aliasName upload.chunks.flatten
        upload.contentType := by
  obtain ⟨hmutable, hexpected, httl⟩ := plain
  have hreceive := @receive_eq cfg.maxUploadBytes upload.chunks []
    (by simp [limit])
  simp only [Endpoint.writeObject, putObject, runAlone_bind, runAlone_ret, runAlone_callGuard,
    runAlone_callRegistry, runAlone_pure, requireCapability_alone room htoken, hmutable, hexpected,
    httl, hreceive, List.nil_append]
  refine bind_congr fun cap => bind_congr fun _ => ?_
  have hdeclared : ¬api.maxUploadBytes < upload.chunks.flatten.length →
      Endpoint.checkDeclaredSize cfg.maxUploadBytes upload.declaredSize = .ok () := by
    intro hfits
    rcases hsize : upload.declaredSize with _ | size
    · rfl
    · obtain rfl := declared size hsize
      have hnonneg : ¬((upload.chunks.flatten.length : Int) < 0) := by omega
      have hbelow : ¬cfg.maxUploadBytes < (upload.chunks.flatten.length : Int) := by
        rw [limit]
        exact_mod_cast hfits
      simp only [Endpoint.checkDeclaredSize, raiseIf, hnonneg, hbelow, if_false]
      rfl
  by_cases hover : api.maxUploadBytes < upload.chunks.flatten.length
  · have habove : cfg.maxUploadBytes < (upload.chunks.flatten.length : Int) := by
      rw [limit]
      exact_mod_cast hover
    simp only [raiseIf, hover, habove, if_true, attempt_error_bind]
    rcases hsize : upload.declaredSize with _ | size
    · rfl
    · obtain rfl := declared size hsize
      have hnonneg : ¬((upload.chunks.flatten.length : Int) < 0) := by omega
      simp only [Endpoint.checkDeclaredSize, raiseIf, hnonneg, habove, if_true, if_false]
      rfl
  · have hbelow : ¬cfg.maxUploadBytes < (upload.chunks.flatten.length : Int) := by
      rw [limit]
      exact_mod_cast hover
    simp only [hdeclared hover, raiseIf, hover, hbelow, if_false, attempt_ok_bind]
    exact bind_bucketQuota

end Endpoints

end AssetStore
