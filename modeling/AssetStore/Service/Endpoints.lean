import AssetStore.Service.Uploads

/-! The endpoints under the contract of the service. Each one authenticates its caller before it
does anything, and it answers what its caller is entitled to. -/

namespace AssetStore

open Lib Relation

variable {ι α β : Type} {present used : Text → Prop} {env : Env} {grace : Int} {seen : Vault → Prop}
  {v v' : Vault} {s : Service ι} {cfg : ServiceConfig} {auth : Text}

/-! ### Callers and answers -/

section Answers

variable (once : (Vault → Prop) → Prop)

/-- The header of a request speaks for a service: it carries its credential, or the token of a grant
that was published for it. -/
def SpeaksFor (cfg : ServiceConfig) (auth who : Text) : Prop :=
  requireServiceIdentity cfg.credentials auth = .ok who ∨
    ∃ token cap, bearerToken auth = .ok token ∧ cap.callerServiceId = who ∧
      once fun w => w.grants.get token = some cap

/-- The service is entitled to the answer. -/
def Response.EntitledTo (cfg : ServiceConfig) (who : Text) : Response → Prop
  | .asset a => who = adminService ∨ MayUse who a.space .read ∨
      a.ownerServiceId = who ∧ MayUse who a.space .write
  | .object (.bytes data) => ReadableBytes once who data
  | .object (.presigned url) => SignedRead once cfg.presignGetUrl who url
  | .capability cap => cap.callerServiceId = who ∧ Grantable cap
  | _ => who = adminService

/-- The answer is for anyone: of what is guarded it says no more than how many grants were published
and how many bytes of uploads were reserved in each bucket. -/
def Response.ForAnyone : Response → Prop
  | .status _ => True
  | .file _ => True
  | .metrics gauges => (once fun w => w.grants.keys.length = gauges.activeCapabilities) ∧
      ∀ space bytes, (space, some bytes) ∈ gauges.reservedUploadBytes →
        once fun w => ∃ clock t, reservedUploadBytes space ⟨w.reg, clock⟩ = .ok bytes t
  | _ => False

/-- The answer is for anyone, or it is due to who sends the header. -/
def Response.Due (cfg : ServiceConfig) (auth : Text) (response : Response) : Prop :=
  response.ForAnyone once ∨
    ∃ who, SpeaksFor once cfg auth who ∧ response.EntitledTo once cfg who

end Answers

section Later

variable {once once' : (Vault → Prop) → Prop} {who : Text} {response : Response}

theorem SpeaksFor.mono (h : SpeaksFor once cfg auth who) (weaker : ∀ P, once P → once' P) :
    SpeaksFor once' cfg auth who := by
  rcases h with hidentity | ⟨token, cap, htoken, hcaller, hgrant⟩
  · exact .inl hidentity
  · exact .inr ⟨token, cap, htoken, hcaller, weaker _ hgrant⟩

theorem Response.EntitledTo.mono (h : response.EntitledTo once cfg who)
    (weaker : ∀ P, once P → once' P) : response.EntitledTo once' cfg who := by
  match response, h with
  | .object (.bytes _), ⟨location, hmay, hbytes⟩ => exact ⟨location, hmay, weaker _ hbytes⟩
  | .object (.presigned _), ⟨hmay, hstored, hsigned⟩ => exact ⟨hmay, weaker _ hstored, hsigned⟩
  | .asset _, h => exact h
  | .capability _, h => exact h
  | .status _, h => exact h
  | .metrics _, h => exact h
  | .file _, h => exact h
  | .noContent, h => exact h
  | .binding _, h => exact h
  | .partitionQuota _, h => exact h
  | .bucketQuota _, h => exact h
  | .events _, h => exact h
  | .page _, h => exact h
  | .inspected _ _, h => exact h
  | .candidates _, h => exact h
  | .applied _ _, h => exact h

theorem Response.ForAnyone.mono (h : response.ForAnyone once) (weaker : ∀ P, once P → once' P) :
    response.ForAnyone once' := by
  cases response with
  | metrics => exact ⟨weaker _ h.1, fun space bytes hmem => weaker _ (h.2 space bytes hmem)⟩
  | _ => exact h

theorem Response.Due.mono (h : response.Due once cfg auth) (weaker : ∀ P, once P → once' P) :
    response.Due once' cfg auth := by
  rcases h with hanyone | ⟨who, hspeaks, hentitled⟩
  · exact .inl (hanyone.mono weaker)
  · exact .inr ⟨who, hspeaks.mono weaker, hentitled.mono weaker⟩

end Later

/-- What a request is answered is due to its caller. -/
def AnsweredDue (present used : Text → Prop) (env : Env) (grace : Int) (seen : Vault → Prop)
    (cfg : ServiceConfig)
    (auth : Text) (response : Response) (s : Service ι) : Prop :=
  response.Due (fun P => Once present used env grace seen P s.vault) cfg auth

theorem AnsweredDue.lasts (response : Response) :
    (duties present used env grace seen ι).Lasts
      (AnsweredDue present used env grace seen cfg auth response) :=
  fun _ _ hleads h => Response.Due.mono h fun _ honce => honce.later hleads

/-! ### Calls of the registry -/

theorem closing_reply {m : RegM α} {f : α → β} (closing : Closing present used env grace m v) :
    Closing present used env grace (m >>= fun a => pure (f a)) v := by
  intro v' hleads hsound clock b t hm
  obtain ⟨a, ha⟩ := replied hm
  exact closing v' hleads hsound clock a t ha

/-- A call in the name of the admin. -/
theorem closing_admin {m : RegM β} (op : Op) (f : β → Reply) (admin : present adminService)
    (action : op.Administrative) (hop : op.run env = m >>= fun b => pure (f b)) :
    Closing present used env grace m v := by
  have named : ∀ r, op.NewlyNamed r := fun r => by cases op <;> trivial
  refine fun v' _ _ => .call (.administer admin action) (named _) fun q b t hm => ⟨f b, ?_⟩
  rw [hop, bind_of_ok hm]
  rfl

theorem callRegistry_dutiful {m : RegM β} (closing : Closing present used env grace m s.vault) :
    Dutiful present used env grace seen (fun b s' => Ran present used env grace seen m b s'.vault)
      (callRegistry m) s :=
  .perform fun _ hlater hinv => closing _ hlater hinv.2

theorem callRead_dutiful {m : RegM β} (keeps : Keeps (fun r => r) m) :
    Dutiful present used env grace seen (fun b s' => Ran present used env grace seen m b s'.vault)
      (callRegistry m) s :=
  callRegistry_dutiful fun _ _ _ => .read keeps

theorem callGuard_dutiful {Q : β → Service ι → Prop} {p : GuardProg β}
    (h : Guarded present used env grace seen Q p s) :
    Dutiful present used env grace seen Q (callGuard p) s :=
  .hoist h

/-! ### The console -/

section Console

variable {assetId : Text}

/-- An alias is detached by one of the two calls. -/
theorem detachOwn_runs {asset : Asset} {name : Text} {u : Unit} {q t : Session}
    {calls : List (Op × (Nat → Time))}
    (before : Runs env (Registry.initial grace) calls q.reg)
    (h : detachOwn asset name q = .ok u t) :
    ∃ (op : Op) (clock : Nat → Time) (reply : Reply), op.Administrative ∧
      op.run env ⟨q.reg, clock⟩ = .ok reply t := by
  simp only [detachOwn, bind_eq_ok, attempt_eq_ok] at h
  obtain ⟨_, _, ⟨-, rfl⟩, h⟩ := h
  generalize stripSlash (stripSpace name) = path at h
  cases hdetach : detachAlias asset.space path adminService q with
  | ok u1 t1 =>
    rw [tryCatch_of_ok hdetach] at h
    obtain ⟨-, rfl⟩ := EStateM.Result.ok.inj h
    refine ⟨.detachAlias asset.space path adminService, q.clock, .none, rfl, ?_⟩
    rw [Op.run, bind_of_ok hdetach]
    rfl
  | error e t1 =>
    -- the refusal to detach a mutable alias has changed nothing
    have hraises := @detachAlias_raises env _ _ (Same fun r => r) _ _ _ _ _ before.sound.1
      before.indexed.bindsStored hdetach
    rw [tryCatch_of_error hdetach] at h
    split at h
    · rename_i hmutable
      have hreg : t1.reg = q.reg := hraises.resolve_right fun hover => by
        rw [hover.1] at hmutable
        cases hmutable
      obtain ⟨b, _, hunbind, hret⟩ := bind_eq_ok.mp h
      obtain ⟨-, rfl⟩ := pure_eq_ok.mp hret
      refine ⟨.detachMutableAlias asset.space path adminService, t1.clock, .binding b, rfl, ?_⟩
      rw [← hreg, Op.run, bind_of_ok hunbind]
      rfl
    · simp at h

/-- A mutation is one call in the name of the admin. -/
theorem apply_runs {body : Mutation} {asset : Asset} {u : Unit} {q t : Session}
    {calls : List (Op × (Nat → Time))} (before : Runs env (Registry.initial grace) calls q.reg)
    (h : body.apply env assetId asset q = .ok u t) :
    ∃ (op : Op) (clock : Nat → Time) (reply : Reply), op.Administrative ∧
      op.run env ⟨q.reg, clock⟩ = .ok reply t := by
  have one : ∀ {β : Type} {m : RegM β} (op : Op) (f : β → Reply), op.Administrative →
      op.run env = (m >>= fun b => pure (f b)) → ∀ {q1 t1 : Session} {u1 : Unit}, q1.reg = q.reg →
      (do let _ ← m) q1 = .ok u1 t1 → ∃ (op : Op) (clock : Nat → Time) (reply : Reply),
        op.Administrative ∧ op.run env ⟨q.reg, clock⟩ = .ok reply t1 := by
    intro β m op f action hop q1 t1 u1 hreg hm
    obtain ⟨b, hb⟩ := replied hm
    refine ⟨op, q1.clock, f b, action, ?_⟩
    rw [← hreg, hop, bind_of_ok hb]
    rfl
  unfold Mutation.apply at h
  cases haction : body.action with
  | expire =>
    simp only [haction] at h
    exact one (.expireAsset assetId adminService) .asset rfl rfl rfl h
  | delete =>
    simp only [haction] at h
    exact one (.deleteAsset assetId adminService) .asset rfl rfl rfl h
  | ttl =>
    simp only [haction] at h
    obtain ⟨seconds, _, hneed, h⟩ := bind_eq_ok.mp h
    obtain ⟨-, rfl⟩ := attempt_eq_ok.mp hneed
    exact one (.setAssetTtl assetId seconds adminService) .asset rfl rfl rfl h
  | attach =>
    simp only [haction] at h
    obtain ⟨name, _, hneed, h⟩ := bind_eq_ok.mp h
    obtain ⟨-, rfl⟩ := attempt_eq_ok.mp hneed
    exact one (.attachAlias assetId name body.mutable adminService) .binding rfl rfl rfl h
  | detach =>
    simp only [haction] at h
    obtain ⟨name, _, hneed, h⟩ := bind_eq_ok.mp h
    obtain ⟨-, rfl⟩ := attempt_eq_ok.mp hneed
    exact detachOwn_runs before h
  | annotations =>
    simp only [haction] at h
    obtain ⟨patch, _, hneed, h⟩ := bind_eq_ok.mp h
    obtain ⟨-, rfl⟩ := attempt_eq_ok.mp hneed
    exact one (.updateAnnotations assetId patch adminService true) .asset rfl rfl rfl h
  | eviction =>
    simp only [haction] at h
    obtain ⟨policy, _, hneed, h⟩ := bind_eq_ok.mp h
    obtain ⟨-, rfl⟩ := attempt_eq_ok.mp hneed
    exact one (.setEvictionPolicy assetId policy adminService) .asset rfl rfl rfl h

theorem mutate_guarded {body : Mutation} (admin : present adminService) :
    Guarded present used env grace seen (fun _ _ => True) (mutate env assetId body) s := by
  refine .conseq (withAssetLock_guarded (T := fun _ _ => True) fun asset s1 _ _ => ?_)
    fun _ _ _ _ => trivial
  refine .bind .ret fun _ s2 _ _ => .pure ⟨fun v' _ hsound clock b t hm => ?_, trivial⟩
  obtain ⟨_, t1, happly, hget⟩ := bind_eq_ok.mp hm
  obtain ⟨-, rfl⟩ := getAsset_eq_ok.mp hget
  obtain ⟨calls, hcalls⟩ := hsound.reached
  obtain ⟨op, clock', reply, action, hrun⟩ := apply_runs (q := ⟨v'.reg, clock⟩) hcalls happly
  have named : op.NewlyNamed v'.reg := by cases op <;> trivial
  exact .single (.call (.administer admin action) named hrun)

theorem expireCandidates_guarded {query : AssetQuery} (admin : present adminService) :
    ∀ {candidates : List Candidate} {applied skipped : Nat} {s : Service ι},
    Guarded present used env grace seen (fun _ _ => True)
      (expireCandidates query candidates applied skipped) s
  | [], _, _, _ => .pure trivial
  | candidate :: rest, _, _, s => by
    have hone : Guarded present used env grace seen (fun _ _ => True)
        (expireCandidate query candidate) s := by
      refine .conseq (withAssetLock_guarded (T := fun _ _ => True) fun asset s1 _ _ => ?_)
        fun _ _ _ _ => trivial
      refine .ite (fun _ => .pure ⟨closing_pure, trivial⟩) fun _ =>
        .pure ⟨closing_reply ?_, trivial⟩
      exact closing_admin (.expireAsset asset.assetId adminService) .asset admin rfl rfl
    exact .bind hone fun _ _ _ _ =>
      .ite (fun _ => expireCandidates_guarded admin) fun _ => expireCandidates_guarded admin

end Console

/-! ### Endpoints -/

section Endpoints

variable {Q : α → Service ι → Prop}

/-- A route of the legacy interface is the admin's, in its own name. -/
theorem legacyAdmin_dutiful {claimed : Option Text} {route : ServiceProg α}
    (hroute : ∀ s', requireServiceIdentity cfg.credentials auth = .ok adminService →
      (∀ other ∈ claimed, other = adminService) → Dutiful present used env grace seen Q route s') :
    Dutiful present used env grace seen
      (fun a s' => requireServiceIdentity cfg.credentials auth = .ok adminService ∧ Q a s')
      (Endpoint.legacyAdmin cfg auth claimed route) s := by
  refine .bind .ret fun caller s1 _ hcaller => ?_
  obtain ⟨hadmin, hclaimed⟩ := requireLegacyAdmin_eq_ok.mp hcaller
  obtain ⟨hidentity, rfl⟩ := requireAdmin_eq_ok.mp hadmin
  exact (hroute s1 hidentity hclaimed).conseq fun _ _ _ hQ => ⟨hidentity, hQ⟩

theorem console_dutiful {route : ServiceProg α}
    (hroute : ∀ s', requireServiceIdentity cfg.credentials auth = .ok adminService →
      Dutiful present used env grace seen Q route s') :
    Dutiful present used env grace seen
      (fun a s' => requireServiceIdentity cfg.credentials auth = .ok adminService ∧ Q a s')
      (Endpoint.console cfg auth route) s := by
  refine .bind .ret fun caller s1 _ hcaller => ?_
  obtain ⟨hidentity, rfl⟩ := requireAdmin_eq_ok.mp hcaller
  exact (hroute s1 hidentity).conseq fun _ _ _ hQ => ⟨hidentity, hQ⟩

/-- A legacy route that makes one call in the name of the claimed caller. -/
theorem legacyCall_dutiful {m : RegM α} {claimed : Option Text} (op : Op) (f : α → Reply)
    (here : ∀ who, requireServiceIdentity cfg.credentials auth = .ok who → present who)
    (action : (∀ other ∈ claimed, other = adminService) → op.Administrative)
    (hop : op.run env = m >>= fun b => pure (f b)) :
    Dutiful present used env grace seen
      (fun _ _ => requireServiceIdentity cfg.credentials auth = .ok adminService)
      (Endpoint.legacyAdmin cfg auth claimed (callRegistry m)) s := by
  refine .conseq (legacyAdmin_dutiful (Q := fun _ _ => True) fun s1 hidentity hclaimed => ?_)
    fun _ _ _ h => h.1
  refine .conseq (callRegistry_dutiful ?_) fun _ _ _ _ => trivial
  exact closing_admin op f (here _ hidentity) (action hclaimed) hop

theorem requireCapability_dutiful (cfg : ServiceConfig)
    (carries : ∀ token, bearerToken auth = .ok token → used token) :
    Dutiful present used env grace seen
    (fun cap s' => present cap.callerServiceId ∧
      SpeaksFor (fun P => Once present used env grace seen P s'.vault) cfg auth cap.callerServiceId)
    (Endpoint.requireCapability auth) s := by
  refine .bind .ret fun token s1 _ htoken => ?_
  refine .bind (.perform fun _ _ _ => carries token htoken) fun found s2 h2 hfound => ?_
  refine .conseq .ret fun cap s3 h3 hcap => ?_
  have hgrant := (hfound cap (someOr_eq_ok.mp hcap)).later h3
  refine ⟨?_, .inr ⟨token, cap, htoken, rfl, hgrant⟩⟩
  obtain ⟨w, -, hsound, -, hget⟩ := hgrant
  exact hsound.vouched token cap (carries token htoken) hget

/-- The answer to a caller that was authenticated. -/
theorem answered_identity {who : Text} {response : Response}
    (hwho : requireServiceIdentity cfg.credentials auth = .ok who)
    (h : response.EntitledTo (fun P => Once present used env grace seen P s.vault) cfg who) :
    AnsweredDue present used env grace seen cfg auth response s := .inr ⟨who, .inl hwho, h⟩

theorem Capability.create_fields {capId scopePrefix who : Text} {operation : Operation}
    {expiresAt : Time}
    {singleUse : Bool} {cap : Capability}
    (h : Capability.create capId operation scopePrefix expiresAt who singleUse = .ok cap) :
    cap.operation = operation ∧ cap.scopePrefix = scopePrefix ∧ cap.callerServiceId = who := by
  unfold Capability.create at h
  split at h
  · cases h
  · obtain rfl := Except.ok.inj h
    exact ⟨rfl, rfl, rfl⟩

theorem closing_issue {who operation scopePrefix outcome : Text} {ttl : Int}
    {capabilityId : Option Text} (caller : present who)
    (granted : outcome = "granted".toList → MayBeGranted who operation scopePrefix) :
    Closing present used env grace
      (recordCapabilityIssue env who operation scopePrefix ttl outcome capabilityId) v := by
  intro v' _ _
  have licensed : Licensed present v'.reg
    (.recordCapabilityIssue who operation scopePrefix ttl outcome capabilityId) :=
      .issue caller granted
  exact .call licensed trivial fun q b t hm => ⟨.none, by rw [Op.run, bind_of_ok hm]; rfl⟩

/-- A grant is for the authenticated caller, in a bucket that it may use. -/
theorem mint_dutiful {capId : Text} {body : CapabilityMintRequest}
    (here : ∀ who, requireServiceIdentity cfg.credentials auth = .ok who → present who) :
    Dutiful present used cfg.env grace seen
      (fun cap _ => requireServiceIdentity cfg.credentials auth = .ok cap.callerServiceId ∧
        Grantable cap)
      (Endpoint.mintCapability cfg auth capId body) s := by
  refine .bind .ret fun caller s1 _ hcaller =>
    .bind (.perform fun _ _ _ => trivial) fun _ s2 _ _ => ?_
  refine .bind .ret fun bucket s3 _ hbucket => ?_
  have record : ∀ {outcome : Text} {capabilityId : Option Text} {v : Vault},
      (outcome = "granted".toList →
        MayBeGranted caller body.operation.value body.scopePrefix) →
      Closing present used cfg.env grace (recordCapabilityIssue cfg.env caller body.operation.value
        body.scopePrefix body.ttlSeconds outcome capabilityId) v :=
    closing_issue (here caller hcaller)
  dsimp only
  split
  · refine .bind (callRegistry_dutiful (record fun h => absurd h (by decide))) fun _ _ _ _ => ?_
    exact .conseq .ret fun _ _ _ he => by cases he
  · rename_i hallowed
    refine .bind (callRead_dutiful Within.utcnow) fun now s4 _ _ =>
      .bind .ret fun cap s5 _ hcap => ?_
    obtain ⟨hoperation, hscope, howner⟩ := Capability.create_fields hcap
    have grantable : Grantable cap := by
      refine ⟨bucket, by rw [hscope, hbucket], ?_⟩
      rwa [hoperation, howner]
    refine .bind (callGuard_dutiful (.perform fun _ _ _ => trivial)) fun _ s6 _ _ => ?_
    refine .bind (.perform fun s7 h7 hsound => ?_) fun _ _ _ _ =>
      .pure ⟨howner ▸ hcaller, grantable⟩
    exact ⟨howner ▸ here caller hcaller, grantable,
      record (fun _ => ⟨bucket, _, hbucket, rfl, hallowed⟩) _ .refl hsound.2⟩

theorem writeObject_dutiful {newId : Text} {upload : Upload}
    (carries : ∀ token, bearerToken auth = .ok token → used token) :
    Dutiful present used cfg.env grace seen
      (fun a s' => ∃ who, SpeaksFor (fun P => Once present used cfg.env grace seen P s'.vault)
        cfg auth who ∧
        a.ownerServiceId = who ∧ MayUse who a.space .write)
          (Endpoint.writeObject cfg auth newId upload) s := by
  refine .bind (requireCapability_dutiful cfg carries) fun cap s1 _ ⟨hpresent, hspeaks⟩ => ?_
  have hauthorize : Guarded present used cfg.env grace seen (fun _ _ => True)
      (authorizeWrite cap upload.aliasName) s1 :=
    .bind authorize_guarded fun _ _ _ _ => .pure trivial
  refine .bind (callGuard_dutiful hauthorize) fun _ s2 h2 _ => ?_
  refine .bind .ret fun _ s3 h3 _ => .bind .ret fun data s4 h4 _ => ?_
  refine .bind (callGuard_dutiful (writeObject_guarded hpresent)) fun a s5 h5 ⟨howner, hmay⟩ => ?_
  refine .bind (callRead_dutiful Within.bucketQuota) fun _ s6 h6 _ =>
    .pure ⟨cap.callerServiceId, ?_, howner, hmay⟩
  exact hspeaks.mono fun _ honce => ((((honce.later h2).later h3).later h4).later h5).later h6

theorem readObject_dutiful {aliasName mode : Text} {expiresIn : Int}
    (carries : ∀ token, bearerToken auth = .ok token → used token) :
    Dutiful present used cfg.env grace seen
      (fun reply s' => AnsweredDue present used cfg.env grace seen cfg auth (.object reply) s')
      (Endpoint.readObject cfg auth aliasName mode expiresIn) s := by
  refine .bind (requireCapability_dutiful cfg carries) fun cap s1 _ ⟨hpresent, hspeaks⟩ => ?_
  refine .ite (fun _ => ?_) fun _ => ?_
  · refine .bind (callGuard_dutiful (presignRead_guarded hpresent)) fun url s2 h2 hurl => .pure ?_
    exact .inr ⟨cap.callerServiceId, hspeaks.mono fun _ honce => honce.later h2, hurl⟩
  · refine .bind .ret fun _ s2 h2 _ => ?_
    refine .bind (callGuard_dutiful (readBytes_guarded hpresent)) fun data s3 h3 hdata => ?_
    refine .pure (.inr ⟨cap.callerServiceId, ?_, hdata⟩)
    exact hspeaks.mono fun _ honce => (honce.later h2).later h3

theorem reserve_dutiful {newId : Text} {body : ReserveBody}
    (here : ∀ who, requireServiceIdentity cfg.credentials auth = .ok who → present who) :
    Dutiful present used cfg.env grace seen
      (fun a _ => requireServiceIdentity cfg.credentials auth = .ok a.ownerServiceId ∧
        MayUse a.ownerServiceId a.space .write) (Endpoint.reserve cfg auth newId body) s := by
  refine .bind .ret fun caller s1 _ hcaller => .bind .ret fun _ s2 _ howner => ?_
  refine .bind .ret fun _ s3 _ hallowed => ?_
  have howner : body.ownerServiceId = caller := not_not.mp (raiseIf_eq_ok.mp howner)
  subst howner
  refine .conseq (.perform fun _ _ _ => ⟨rfl, .reserve (here _ hcaller) hallowed⟩) fun a s4
    _ told => ?_
  obtain ⟨-, -, ha, hspace⟩ := told
  rw [ha]
  exact ⟨hcaller, (mayUse_normalized hspace).mp hallowed⟩

theorem resolve_dutiful {space aliasName : Text} :
    Dutiful present used cfg.env grace seen
      (fun a _ => ∃ who, requireServiceIdentity cfg.credentials auth = .ok who ∧
        MayUse who a.space .read)
      (Endpoint.resolve cfg auth space aliasName) s := by
  refine .bind .ret fun caller s1 _ hcaller => .bind .ret fun _ s2 _ hallowed => ?_
  refine .conseq (callRead_dutiful Within.resolveAlias) fun a s3 _ hran => ⟨caller, hcaller, ?_⟩
  obtain ⟨w, -, hsound, hw, clock, t, hrun⟩ := hran
  obtain ⟨calls, hcalls⟩ := hsound.reached
  obtain ⟨-, hspace⟩ := hcalls.resolveAlias_found (s := ⟨w.reg, clock⟩) hrun
  exact (mayUse_normalized hspace).mp hallowed

theorem commit_dutiful {assetId : Text} {body : CommitRequest}
    (here : ∀ who, requireServiceIdentity cfg.credentials auth = .ok who → present who) :
    Dutiful present used cfg.env grace seen
      (fun a _ => ∃ who, requireServiceIdentity cfg.credentials auth = .ok who ∧
        (a.ownerServiceId = who ∨ who = adminService) ∧ MayUse who a.space .write)
      (Endpoint.commit cfg auth assetId body) s := by
  refine .bind .ret fun caller s1 _ hcaller => ?_
  refine .conseq (callGuard_dutiful (commit_guarded (here caller hcaller))) fun a s2 _ ha => ?_
  exact ⟨caller, hcaller, ha⟩

theorem reservedUploadBytes_keeps {space : Text} :
    Keeps (fun r => r) (reservedUploadBytes space) :=
  Within.bind Within.tables fun _ => Within.bind Within.attempt fun _ => Within.pure

/-- What the gauge of a space shows, the registry has answered. -/
def Sampled (present used : Text → Prop) (env : Env) (grace : Int) (seen : Vault → Prop)
    (space : Text) (sample : Option Int) (v : Vault) : Prop :=
  ∀ bytes, sample = some bytes →
    Ran present used env grace seen (reservedUploadBytes space) bytes v

theorem metricReservedUploadBytes_dutiful {space : Text} :
    Dutiful present used env grace seen
      (fun sample s' => Sampled present used env grace seen space sample s'.vault)
      (Endpoint.metricReservedUploadBytes space) s := by
  refine .tryCatch (.bind (callRead_dutiful reservedUploadBytes_keeps) fun bytes s1 _ hran =>
    .pure fun b hb => ?_) fun e s1 _ => .ite (fun _ => .pure fun b hb => ?_) fun _ => ?_
  · cases hb
    exact hran
  · cases hb
  · exact fun _ hfalse => by cases hfalse

theorem reservedSamples_dutiful : ∀ {spaces : List Text} {s : Service ι},
    Dutiful present used env grace seen (fun samples s' => ∀ space sample,
        (space, sample) ∈ samples → Sampled present used env grace seen space sample s'.vault)
      (Endpoint.reservedSamples spaces) s
  | [], s => .pure fun _ _ hmem => by cases hmem
  | space :: spaces, s => by
    refine .bind metricReservedUploadBytes_dutiful fun sample s1 _ hsample => ?_
    refine .bind reservedSamples_dutiful fun rest s2 hlater hrest =>
      .pure fun space' sample' hmem => ?_
    rcases List.mem_cons.mp hmem with heq | hmem
    · obtain ⟨rfl, rfl⟩ := Prod.mk.inj heq
      exact fun bytes hbytes => (hsample bytes hbytes).later hlater
    · exact hrest space' sample' hmem

theorem metrics_dutiful :
    Dutiful present used env grace seen (fun gauges s' => Response.ForAnyone
        (fun P => Once present used env grace seen P s'.vault) (.metrics gauges))
      Endpoint.metrics s := by
  refine .bind (.perform fun _ _ _ => trivial) fun n s1 _ hcount => ?_
  refine .bind reservedSamples_dutiful fun samples s2 hlater hsamples => .pure ⟨?_, ?_⟩
  · exact Once.later hcount hlater
  · exact fun space bytes hmem => hsamples space (some bytes) hmem bytes rfl

/-! ### Requests -/

theorem queryAssets_keeps {q : AssetQuery} : Keeps (fun r => r) (queryAssets env q) :=
  Within.bind Within.attempt fun _ => Within.bind Within.tables fun _ => Within.pure

theorem recentAudit_keeps {assetId : Option Text} {limit : Int} :
    Keeps (fun r => r) (recentAudit assetId limit) :=
  Within.bind Within.attempt fun _ => Within.bind Within.tables fun _ => Within.pure

theorem listedQuota_keeps {q : AssetQuery} : Keeps (fun r => r) (listedQuota q) := by
  unfold listedQuota
  split
  · exact Within.bind Within.partitionQuota fun _ => Within.pure
  · exact Within.pure

theorem reply_dutiful {p : ServiceProg α} {f : α → Response}
    (h : Dutiful present used cfg.env grace seen Q p s)
    (answered : ∀ a s', Q a s' → AnsweredDue present used cfg.env grace seen cfg auth (f a) s') :
    Dutiful present used cfg.env grace seen (AnsweredDue present used cfg.env grace seen cfg auth)
      (p >>= fun a => pure (f a)) s :=
  .bind h fun a s' _ hQ => .pure (answered a s' hQ)

/-- Whatever a request does, it does within the contract, and it is answered what it is entitled
to. -/
theorem handle_dutiful (incoming : Incoming)
    (here : ∀ who, requireServiceIdentity cfg.credentials incoming.authorization = .ok who →
      present who)
    (carries : ∀ token, bearerToken incoming.authorization = .ok token → used token) :
    Dutiful present used cfg.env grace seen
      (AnsweredDue present used cfg.env grace seen cfg incoming.authorization)
      (incoming.handle cfg) s := by
  obtain ⟨auth, request⟩ := incoming
  -- the answers to the admin
  have admin : ∀ {response : Response} {s' : Service ι},
      response.EntitledTo (fun P => Once present used cfg.env grace seen P s'.vault) cfg
        adminService →
      requireServiceIdentity cfg.credentials auth = .ok adminService →
      AnsweredDue present used cfg.env grace seen cfg auth response s' :=
    fun h hidentity => answered_identity hidentity h
  have read : ∀ {β : Type} {m : RegM β} {s' : Service ι}, Keeps (fun r => r) m →
      Dutiful present used cfg.env grace seen (fun _ _ => True) (callRegistry m) s' :=
    fun keeps => .conseq (callRead_dutiful keeps) fun _ _ _ _ => trivial
  have named : ∀ {caller : Text}, (∀ other ∈ some caller, other = adminService) →
      caller = adminService :=
    fun h => h _ rfl
  cases request with
  | healthz => exact .pure (.inl trivial)
  | readyz => exact .pure (.inl trivial)
  | metrics => exact reply_dutiful metrics_dutiful fun _ _ told => .inl told
  | consolePage => exact .pure (.inl trivial)
  | staticFile => exact .pure (.inl trivial)
  | reserve newId body =>
    exact reply_dutiful (reserve_dutiful here) fun a s' h =>
      answered_identity h.1 (.inr (.inr ⟨rfl, h.2⟩))
  | commit assetId body =>
    refine reply_dutiful (commit_dutiful here) fun a s' ⟨who, hwho, howner, hmay⟩ =>
      answered_identity hwho ?_
    exact howner.elim (fun h => .inr (.inr ⟨h, hmay⟩)) .inl
  | resolve space aliasName =>
    exact reply_dutiful resolve_dutiful fun a s' ⟨who, hwho, hmay⟩ =>
      answered_identity hwho (.inr (.inl hmay))
  | updateAnnotations assetId body =>
    refine reply_dutiful (legacyCall_dutiful
      (.updateAnnotations assetId body.patch body.callerServiceId body.overwrite) .asset here
        named rfl) ?_
    exact fun a s' h => admin (.inl rfl) h
  | expire assetId caller =>
    refine reply_dutiful (legacyCall_dutiful (.expireAsset assetId caller) .asset here named rfl) ?_
    exact fun a s' h => admin (.inl rfl) h
  | delete assetId caller =>
    refine reply_dutiful (legacyCall_dutiful (.deleteAsset assetId caller) .asset here named rfl) ?_
    exact fun a s' h => admin (.inl rfl) h
  | detachAlias space aliasName caller =>
    refine reply_dutiful (legacyCall_dutiful (.detachAlias space aliasName caller)
      (fun _ => .none) here named rfl) ?_
    exact fun a s' h => admin rfl h
  | detachMutableAlias space aliasName caller =>
    refine reply_dutiful (legacyCall_dutiful
      (.detachMutableAlias space aliasName caller) .binding here named rfl) ?_
    exact fun a s' h => admin rfl h
  | rebindAlias space aliasName newId caller =>
    refine reply_dutiful (legacyCall_dutiful
      (.rebindAlias space aliasName newId caller) .binding here named rfl) ?_
    exact fun a s' h => admin rfl h
  | setEvictionPolicy assetId policy caller =>
    refine reply_dutiful (legacyCall_dutiful
      (.setEvictionPolicy assetId policy caller) .asset here named rfl) ?_
    exact fun a s' h => admin (.inl rfl) h
  | setPartitionQuota claimed body =>
    refine reply_dutiful (legacyCall_dutiful
      (.setPartitionQuota body.space body.partitionId body.quotaBytes
      body.quotaAssetCount body.evictionSweepEnabled adminService) .partitionQuota here
        (fun _ => rfl) rfl) ?_
    exact fun a s' h => admin rfl h
  | getPartitionQuota space partitionId =>
    exact reply_dutiful (legacyAdmin_dutiful fun s' _ _ => read Within.partitionQuota) fun a s' h =>
      admin rfl h.1
  | setBucketQuota claimed body =>
    refine reply_dutiful (legacyCall_dutiful
      (.setBucketQuota body.space body.quotaBytes body.warnThreshold
      body.hardCeiling) .bucketQuota here (fun _ => trivial) rfl) ?_
    exact fun a s' h => admin rfl h
  | getBucketQuota space =>
    exact reply_dutiful (legacyAdmin_dutiful fun s' _ _ => read Within.bucketQuota) fun a s' h =>
      admin rfl h.1
  | listAudit filter =>
    refine reply_dutiful (legacyAdmin_dutiful (Q := fun _ _ => True) fun s' _ _ => ?_) fun a s' h =>
      admin rfl h.1
    exact .bind (read Within.tables) fun _ _ _ _ => .pure trivial
  | mintCapability capId body =>
    exact reply_dutiful (mint_dutiful here) fun cap s' h => answered_identity h.1 ⟨rfl, h.2⟩
  | writeObject newId upload =>
    refine reply_dutiful (writeObject_dutiful carries) fun a s' ⟨who, hspeaks, howner, hmay⟩ => ?_
    exact .inr ⟨who, hspeaks, .inr (.inr ⟨howner, hmay⟩)⟩
  | readObject aliasName mode expiresIn bounds =>
    exact reply_dutiful (readObject_dutiful carries) fun _ _ h => h
  | listing query =>
    refine reply_dutiful (console_dutiful (Q := fun _ _ => True) fun s' _ => ?_) fun a s' h =>
      admin rfl h.1
    refine .bind .ret fun q _ _ _ => .bind (read queryAssets_keeps) fun rows _ _ _ => ?_
    exact .bind (read listedQuota_keeps) fun _ _ _ _ => .pure trivial
  | inspect assetId =>
    refine .bind (console_dutiful (Q := fun _ _ => True) fun s' _ => ?_) fun ⟨a, es⟩ s' _ h =>
      .pure (admin rfl h.1)
    exact .bind (read Within.getAsset) fun _ _ _ _ => .bind (read recentAudit_keeps) fun _ _ _ _ =>
      .pure trivial
  | audit limit bounds =>
    exact reply_dutiful (console_dutiful fun s' _ => read recentAudit_keeps) fun a s' h =>
      admin rfl h.1
  | mutate assetId body =>
    exact reply_dutiful (console_dutiful fun s' hidentity =>
      callGuard_dutiful (mutate_guarded (here _ hidentity)))
      fun a s' h => admin (.inl rfl) h.1
  | quota body =>
    refine reply_dutiful (console_dutiful (Q := fun _ _ => True) fun s' hidentity => ?_) fun a s'
      h => admin rfl h.1
    refine .conseq (callRegistry_dutiful ?_) fun _ _ _ _ => trivial
    exact closing_admin (.setPartitionQuota body.space body.partitionId body.quotaBytes
      body.quotaAssetCount
      body.evictionSweepEnabled adminService) .partitionQuota (here _ hidentity) rfl rfl
  | preview pathPrefix =>
    refine reply_dutiful (console_dutiful (Q := fun _ _ => True) fun s' _ => ?_) fun a s' h =>
      admin rfl h.1
    exact .bind .ret fun _ _ _ _ => .bind (read queryAssets_keeps) fun _ _ _ _ =>
      .bind .ret fun _ _ _ _ => .pure trivial
  | bulk pathPrefix body =>
    refine .bind (console_dutiful (Q := fun _ _ => True) fun s' hidentity => callGuard_dutiful ?_)
      fun ⟨applied, skipped⟩ s' _ h => .pure (admin rfl h.1)
    exact .bind .ret fun _ _ _ _ => .bind .ret fun _ _ _ _ =>
      expireCandidates_guarded (here _ hidentity)

end Endpoints

end AssetStore
