import AssetStore.Admin.Actions
import AssetStore.Api
import AssetStore.Guard.Intact
import AssetStore.Registry.Citations
import AssetStore.Registry.Log
import AssetStore.Registry.Requests

/-! The access monitor, an abstract model of the service. It guards the registry, the stored
objects and the published grants. The services that are present may change them only as the
allowlist and the ownership of the assets permit; what no service can do then holds of every
sequence of changes. -/

namespace AssetStore

open Lib Relation

/-- What the monitor guards. -/
structure Vault where
  reg : Registry
  store : ObjectStore
  grants : Dict Text Capability

/-- The allowlist lets the service use the bucket. -/
def MayUse (who bucket : Text) (operation : Operation) : Prop :=
  assertServiceBucketAllowed who bucket operation = .ok ()

instance (who bucket : Text) (operation : Operation) : Decidable (MayUse who bucket operation) := by
  unfold MayUse
  infer_instance

/-- The allowlist lets the service have a grant for the operation on the scope. -/
def MayBeGranted (who operation scopePrefix : Text) : Prop :=
  ∃ bucket kind, normalizeSpace (partitionSlash (stripSlash scopePrefix)).1 = .ok bucket ∧
    operation = Operation.value kind ∧ MayUse who bucket kind

/-- The call is made in the name of the admin. -/
def Op.Administrative : Op → Prop
  | .attachAlias _ _ _ caller => caller = adminService
  | .updateAnnotations _ _ caller _ => caller = adminService
  | .detachAlias _ _ caller => caller = adminService
  | .detachMutableAlias _ _ caller => caller = adminService
  | .rebindAlias _ _ _ caller => caller = adminService
  | .expireAsset _ caller => caller = adminService
  | .deleteAsset _ caller => caller = adminService
  | .setEvictionPolicy _ _ caller => caller = adminService
  | .setPartitionQuota _ _ _ _ _ caller => caller = adminService
  | .setAssetTtl _ _ caller => caller = adminService
  | .setBucketQuota .. => True
  | _ => False

/-- The id of a reservation is a UUID that is not in use. -/
def Op.NewlyNamed (r : Registry) : Op → Prop
  | .reserveAsset newId _ => r.assets.get newId = none ∧ Generated newId
  | _ => True

section Monitor

variable (present : Text → Prop)

/-- The calls that the monitor lets the present services make. -/
inductive Licensed (r : Registry) : Op → Prop
  | issue {who operation scopePrefix outcome : Text} {ttl : Int} {capabilityId : Option Text}
      (caller : present who)
      (granted : outcome = "granted".toList → MayBeGranted who operation scopePrefix) :
      Licensed r (.recordCapabilityIssue who operation scopePrefix ttl outcome capabilityId)
  | reserve {newId : Text} {req : ReserveRequest} (owner : present req.ownerServiceId)
      (mayWrite : MayUse req.ownerServiceId req.space .write) : Licensed r (.reserveAsset newId req)
  | commit {id checksum who : Text} {size : Int} {mime expected : Option Text} {a : Asset}
      (caller : present who) (get : r.assets.get id = some a)
      (owner : a.ownerServiceId = who ∨ who = adminService) (mayWrite : MayUse who a.space .write) :
      Licensed r (.commitAsset id size checksum who mime expected)
  | read {id who : Text} {a : Asset} (caller : present who) (get : r.assets.get id = some a)
      (mayRead : MayUse who a.space .read) : Licensed r (.recordRead id)
  | abandon {a : Asset} {now : Time} (owner : present a.ownerServiceId)
      (before : a.state = .pending) :
      Licensed r (.lifecycleUpdate a .deleted now "upload_failed".toList false)
  | purge {a : Asset} {now : Time} (owner : present a.ownerServiceId)
      (before : a.state = .deleted) :
      Licensed r (.lifecycleUpdate a .deleted now "upload_failed".toList true)
  | administer {op : Op} (admin : present adminService) (action : op.Administrative) : Licensed r op

/-- The grant is for a bucket that its service may use. -/
def Grantable (cap : Capability) : Prop :=
  ∃ bucket, normalizeSpace (partitionSlash (stripSlash cap.scopePrefix)).1 = .ok bucket ∧
    MayUse cap.callerServiceId bucket cap.operation

/-- One change that the monitor lets happen. -/
inductive Vault.Step (env : Env) (v : Vault) : Vault → Prop
  | call {op : Op} {clock : Nat → Time} {reply : Reply} {t : Session}
      (licensed : Licensed present v.reg op)
      (named : op.NewlyNamed v.reg) (run : op.run env ⟨v.reg, clock⟩ = .ok reply t) :
      Step env v { v with reg := t.reg }
  | put {id : Text} {a : Asset} {data : List UInt8} (get : v.reg.assets.get id = some a)
      (owner : present a.ownerServiceId) :
        Step env v { v with store := v.store.set a.location data }
  | remove {id : Text} {a : Asset} (get : v.reg.assets.get id = some a)
      (owner : present a.ownerServiceId) : Step env v { v with store := v.store.erase a.location }
  | grant {cap : Capability} (caller : present cap.callerServiceId) (grantable : Grantable cap) :
      Step env v { v with grants := v.grants.set cap.capabilityId cap }
  | retire {now : Time} : Step env v { v with grants := pruneCapabilities now v.grants }

/-- The changes that the monitor lets happen, one after the other. -/
def Vault.Leads (env : Env) : Vault → Vault → Prop := ReflTransGen (Vault.Step present env)

/-- The registry was reached by calls, under generated ids, and the grants that are used are of
services that are present. -/
structure Vault.Sound (used : Text → Prop) (env : Env) (grace : Int) (v : Vault) : Prop where
  reached : ∃ calls, Runs env (Registry.initial grace) calls v.reg
  keyed : v.reg.Keyed
  vouched : ∀ token cap, used token → v.grants.get token = some cap → present cap.callerServiceId

end Monitor

variable {present used : Text → Prop} {env : Env} {grace : Int} {r : Registry}
  {v v' : Vault} {op : Op}
  {clock : Nat → Time} {reply : Reply} {t : Session} {id : Text} {a a' : Asset}

theorem Op.NewlyNamed.fresh (h : op.NewlyNamed r) : op.Fresh r := by
  cases op with
  | reserveAsset => exact h.1
  | _ => trivial

theorem Op.exec_of_ok (run : op.run env ⟨r, clock⟩ = .ok reply t) :
    op.exec env clock r = t.reg := by
  rw [Op.exec, run, final_ok]

/-! ### What a licensed call does -/

/-- Only a reservation stores a new asset. -/
theorem Op.exec_stored {calls : List (Op × (Nat → Time))}
    (h : Runs env (Registry.initial grace) calls r)
    (hop : ∀ newId req, op ≠ .reserveAsset newId req)
    (get : (op.exec env clock r).assets.get id = some a') :
    ∃ a, r.assets.get id = some a ∧ Evolves a a' := by
  have hchanges : Changes env clock op r (op.exec env clock r) :=
    Op.exec_changes h.sound.1 h.indexed (Op.fresh_of_ne hop r)
  suffices ∃ a, r.assets.get id = some a by
    obtain ⟨a, hget⟩ := this
    obtain ⟨c, hc, hev⟩ := h.exec_evolves (Op.fresh_of_ne hop r) hget
    obtain rfl := Option.some.inj (get.symm.trans hc)
    exact ⟨a, hget, hev⟩
  generalize op.exec env clock r = r' at hchanges get
  induction hchanges generalizing a' with
  | refl => exact ⟨a', get⟩
  | tail _ hchange ih =>
    rcases hchange.origin get with ⟨b, hb, -⟩ | ⟨req, hreserve, -⟩
    · exact ih hb
    · exact (hop id req hreserve).elim

/-- What the services that are present, but for the admin, may do to the assets and the bindings. -/
inductive Deed (present : Text → Prop) (r t : Registry) : Prop
  | idle (assets : t.assets = r.assets) (aliases : t.aliases = r.aliases)
  | create {id : Text} {a : Asset} (fresh : r.assets.get id = none)
      (assets : t.assets = r.assets.set id a)
      (bindings : ∀ key b, r.aliases.get key = some b → t.aliases.get key = some b)
  | revise {id : Text} {a a' : Asset} (get : r.assets.get id = some a)
      (owner : present a.ownerServiceId)
      (assets : t.assets = r.assets.set id a') (aliases : t.aliases = r.aliases)
  | read {id : Text} {a : Asset} {now : Time} (get : r.assets.get id = some a)
      (state : a.state = .available)
      (assets : t.assets =
        r.assets.set id { a with lastReadAt := some now, readCount := a.readCount + 1 })
      (aliases : t.aliases = r.aliases)

theorem reserveAsset_keeps_bindings {newId : Text} {req : ReserveRequest} {s s' : Session}
    (h : reserveAsset env newId req s = .ok a s') {key : Text} {b : AliasBinding}
    (get : s.reg.aliases.get key = some b) : s'.reg.aliases.get key = some b := by
  obtain ⟨space, d, new, hbinds⟩ := reserveAsset_binds h
  rw [hbinds.aliases, Indexed.bindAll_of_not_mem]
  · exact get
  · intro hmem
    obtain ⟨kb, hkb, rfl⟩ := List.mem_map.mp hmem
    cases (hbinds.free kb hkb).symm.trans get

/-- What a licensed call does when the admin is away. -/
theorem Licensed.deed (h : Licensed present r op) (away : ¬present adminService)
    (named : op.NewlyNamed r)
    (run : op.run env ⟨r, clock⟩ = .ok reply t) : Deed present r t.reg := by
  cases h with
  | issue =>
    obtain ⟨_, _, haudit, hret⟩ := bind_eq_ok.mp run
    obtain ⟨-, rfl⟩ := pure_eq_ok.mp hret
    obtain rfl := audit_eq_ok.mp haudit
    exact .idle rfl rfl
  | reserve owner mayWrite =>
    obtain ⟨a, hrun⟩ := replied run
    obtain ⟨hassets, -⟩ := reserveAsset_stores hrun
    exact .create named.1 hassets fun key b get => reserveAsset_keeps_bindings hrun get
  | commit caller get owner mayWrite =>
    obtain ⟨a', hrun⟩ := replied run
    obtain ⟨c, now, hget, -, -, haliases, hassets⟩ := commitAsset_eq_ok hrun
    obtain rfl := Option.some.inj (get.symm.trans hget)
    rcases owner with rfl | rfl
    · exact .revise get caller hassets haliases
    · exact (away caller).elim
  | @read id who a caller get mayRead =>
    obtain ⟨_, _, hrun, hret⟩ := bind_eq_ok.mp run
    obtain ⟨-, rfl⟩ := pure_eq_ok.mp hret
    simp only [recordRead, bind_eq_ok, getAsset_eq_ok] at hrun
    obtain ⟨c, _, ⟨hget, rfl⟩, hrun⟩ := hrun
    split at hrun
    · simp only [bind_eq_ok, utcnow_eq_ok, putAsset_eq_ok] at hrun
      obtain ⟨_, _, ⟨rfl, rfl⟩, rfl⟩ := hrun
      exact .read hget ‹_› rfl rfl
    · obtain ⟨-, rfl⟩ := pure_eq_ok.mp hrun
      exact .idle rfl rfl
  | abandon owner before =>
    obtain ⟨a', hrun⟩ := replied run
    obtain ⟨hget, -, -, hassets⟩ := lifecycleUpdate_ok hrun
    exact .revise hget owner hassets (lifecycleUpdate_aliases.ok hrun)
  | purge owner before =>
    obtain ⟨a', hrun⟩ := replied run
    obtain ⟨hget, -, -, hassets⟩ := lifecycleUpdate_ok hrun
    exact .revise hget owner hassets (lifecycleUpdate_aliases.ok hrun)
  | administer admin => exact (away admin).elim

theorem Registry.Keyed.call {calls : List (Op × (Nat → Time))} (h : r.Keyed)
    (before : Runs env (Registry.initial grace) calls r) (named : op.NewlyNamed r)
    (run : op.run env ⟨r, clock⟩ = .ok reply t) : t.reg.Keyed := by
  intro id a' get
  by_cases hop : ∃ newId req, op = .reserveAsset newId req
  · obtain ⟨newId, req, rfl⟩ := hop
    obtain ⟨a, hrun⟩ := replied run
    obtain ⟨hassets, -, -, -, -, hkey⟩ := reserveAsset_stores hrun
    rw [hassets, Dict.get_set] at get
    split at get
    · rename_i heq
      obtain rfl := Option.some.inj get
      exact heq ▸ ⟨named.2, hkey⟩
    · exact h id a' get
  · rw [← Op.exec_of_ok run] at get
    obtain ⟨a, hget, hev⟩ := Op.exec_stored before (fun newId req heq => hop ⟨newId, req, heq⟩) get
    rw [hev.partitionId, hev.storageKey]
    exact h id a hget

namespace Vault

theorem Sound.step (h : v.Sound present used env grace) (hstep : v.Step present env v') :
    v'.Sound present used env grace := by
  cases hstep with
  | call licensed named run =>
    obtain ⟨calls, hcalls⟩ := h.reached
    refine ⟨⟨_, Op.exec_of_ok run ▸ hcalls.snoc named.fresh⟩,
      h.keyed.call hcalls named run, h.vouched⟩
  | put => exact ⟨h.reached, h.keyed, h.vouched⟩
  | remove => exact ⟨h.reached, h.keyed, h.vouched⟩
  | grant caller grantable =>
    refine ⟨h.reached, h.keyed, fun token cap hused get => ?_⟩
    rw [Dict.get_set] at get
    split at get
    · exact Option.some.inj get ▸ caller
    · exact h.vouched token cap hused get
  | retire =>
    refine ⟨h.reached, h.keyed, fun token cap hused get => ?_⟩
    rw [pruneCapabilities, Dict.get_filter, Option.filter_eq_some_iff] at get
    exact h.vouched token cap hused get.1

/-- What every permitted change keeps, all of them keep. -/
theorem Leads.induct {P : Vault → Prop} (h : v.Leads present env v')
    (sound : v.Sound present used env grace)
    (start : P v) (step : ∀ {w w'}, w.Sound present used env grace → P w →
      w.Step present env w' → P w') :
    v'.Sound present used env grace ∧ P v' := by
  induction h with
  | refl => exact ⟨sound, start⟩
  | tail _ hstep ih => exact ⟨ih.1.step hstep, step ih.1 ih.2 hstep⟩

theorem Leads.sound (h : v.Leads present env v') (sound : v.Sound present used env grace) :
    v'.Sound present used env grace :=
  (h.induct (P := fun _ => True) sound trivial fun _ _ _ => trivial).1

/-! ### The audit log -/

end Vault

/-- The event is about a stored asset. -/
inductive AuditEvent.Concerns (e : AuditEvent) (id : Text) (a : Asset) : Prop
  | created (creates : e.Creates id a.space)
  | reserved (action : e.action = .uploadReserve) (target : e.target = id)
  | committed (action : e.action = .assetCommit) (target : e.target = id)

/-- An event has an author who is present and may cause it: a service for a grant that it may have
or for an asset of its own, the admin, or the lifecycle worker for a failed upload of a service. -/
inductive AccountedFor (present : Text → Prop) (r : Registry) (e : AuditEvent) : Prop
  | issue {operation scopePrefix outcome : Text} (caller : present e.callerServiceId)
      (issues : e.Issues operation scopePrefix outcome)
      (granted : outcome = "granted".toList → MayBeGranted e.callerServiceId operation scopePrefix)
  | upload {id : Text} {a : Asset} (caller : present e.callerServiceId)
      (get : r.assets.get id = some a) (owner : a.ownerServiceId = e.callerServiceId)
      (mayWrite : MayUse e.callerServiceId a.space .write) (concerns : e.Concerns id a)
  | admin (caller : e.callerServiceId = adminService) (here : present adminService)
  | cleanup {b a : Asset} {purge : Bool} (caller : e.callerServiceId = "lifecycle-worker".toList)
      (retires : e.Retires b .deleted "upload_failed".toList purge)
      (before : b.state = if purge then .deleted else .pending)
      (get : r.assets.get b.assetId = some a) (evolves : Evolves b a)
      (owner : present a.ownerServiceId)

theorem AuditEvent.Concerns.evolves {e : AuditEvent} (h : e.Concerns id a) (hev : Evolves a a') :
    e.Concerns id a' := by
  cases h with
  | created creates => exact .created (hev.space ▸ creates)
  | reserved action target => exact .reserved action target
  | committed action target => exact .committed action target

/-- An event stays accounted for while assets evolve. -/
theorem AccountedFor.later {e : AuditEvent} {r' : Registry} (h : AccountedFor present r e)
    (hev : ∀ id a, r.assets.get id = some a → ∃ a', r'.assets.get id = some a' ∧ Evolves a a') :
    AccountedFor present r' e := by
  cases h with
  | issue caller issues granted => exact .issue caller issues granted
  | upload caller get owner mayWrite concerns =>
    obtain ⟨a', get', hev'⟩ := hev _ _ get
    exact .upload caller get' (hev'.ownerServiceId ▸ owner) (hev'.space ▸ mayWrite)
      (concerns.evolves hev')
  | admin caller here => exact .admin caller here
  | cleanup caller retires before get evolves owner =>
    obtain ⟨a', get', hev'⟩ := hev _ _ get
    exact .cleanup caller retires before get' (evolves.trans hev') (hev'.ownerServiceId ▸ owner)

theorem mayUse_normalized {who space bucket : Text} {operation : Operation}
    (h : normalizeSpace space = .ok bucket) :
    MayUse who space operation ↔ MayUse who bucket operation := by
  have hbucket : normalizeBucket space = .ok bucket := h
  have hfixed : normalizeBucket bucket = .ok bucket :=
    normalizeBucket_of_mem (normalizeBucket_eq_ok.mp h).2
  rw [MayUse, MayUse, assertServiceBucketAllowed, assertServiceBucketAllowed, hbucket, hfixed]

/-- What a licensed call logs is accounted for when it returns. -/
theorem Licensed.accounted {calls : List (Op × (Nat → Time))} {e : AuditEvent}
    (before : Runs env (Registry.initial grace) calls r) (h : Licensed present r op)
    (named : op.NewlyNamed r) (run : op.run env ⟨r, clock⟩ = .ok reply t) (he : op.Signs e) :
    AccountedFor present t.reg e := by
  have later : ∀ {id : Text} {a : Asset}, r.assets.get id = some a →
      ∃ a', t.reg.assets.get id = some a' ∧ Evolves a a' := fun get =>
    Op.exec_of_ok run ▸ before.exec_evolves named.fresh get
  cases h with
  | issue caller granted =>
    obtain ⟨hcaller, issues⟩ := he
    exact .issue (hcaller ▸ caller) issues (hcaller ▸ granted)
  | @reserve newId req owner mayWrite =>
    obtain ⟨a, hrun⟩ := replied run
    obtain ⟨hassets, -, -, howner, hspace, -⟩ := reserveAsset_stores hrun
    obtain ⟨hcaller, hevent⟩ := he
    have get : t.reg.assets.get newId = some a := by rw [hassets, Dict.get_set_self]
    have concerns : e.Concerns newId a := by
      rcases hevent with ⟨space, hspace', creates⟩ | ⟨action, target⟩
      · obtain rfl := Except.ok.inj (hspace.symm.trans hspace')
        exact .created creates
      · exact .reserved action target
    exact .upload (hcaller ▸ owner) get (howner.trans hcaller.symm)
      (hcaller ▸ (mayUse_normalized hspace).mp mayWrite) concerns
  | commit caller get owner mayWrite =>
    obtain ⟨hcaller, action, target⟩ := he
    rcases owner with howner | hadmin
    · obtain ⟨a', get', hev⟩ := later get
      exact .upload (hcaller ▸ caller) get' ((hev.ownerServiceId.trans howner).trans hcaller.symm)
        (by rw [hcaller, hev.space]; exact mayWrite) (.committed action target)
    · exact .admin (hcaller.trans hadmin) (hadmin ▸ caller)
  | read => exact he.elim
  | abandon owner before =>
    obtain ⟨a', hrun⟩ := replied run
    obtain ⟨hget, -⟩ := lifecycleUpdate_ok hrun
    obtain ⟨c, get, hev⟩ := later hget
    exact .cleanup he.1 he.2 before get hev (hev.ownerServiceId ▸ owner)
  | purge owner before =>
    obtain ⟨a', hrun⟩ := replied run
    obtain ⟨hget, -⟩ := lifecycleUpdate_ok hrun
    obtain ⟨c, get, hev⟩ := later hget
    exact .cleanup he.1 he.2 before get hev (hev.ownerServiceId ▸ owner)
  | administer here action =>
    cases op <;> first | exact he.elim | exact action.elim | exact .admin (he.trans action) here

namespace Vault

/-- What happens to the registry leaves every stored asset stored. -/
theorem Step.evolves (h : v.Step present env v') (sound : v.Sound present used env grace)
    (get : v.reg.assets.get id = some a) : ∃ a', v'.reg.assets.get id = some a' ∧ Evolves a a' := by
  cases h with
  | call licensed named run =>
    obtain ⟨calls, hcalls⟩ := sound.reached
    exact Op.exec_of_ok run ▸ hcalls.exec_evolves named.fresh get
  | _ => exact ⟨a, get, .refl a⟩

/-- The log keeps what it has, and what is new in it is accounted for. -/
theorem Leads.accounted (h : v.Leads present env v') (sound : v.Sound present used env grace) :
    ∃ new, v'.reg.auditEvents = v.reg.auditEvents ++ new ∧
      ∀ e ∈ new, AccountedFor present v'.reg e := by
  refine (h.induct (P := fun w => ∃ new, w.reg.auditEvents = v.reg.auditEvents ++ new ∧
    ∀ e ∈ new, AccountedFor present w.reg e) sound ⟨[], by simp, by simp⟩
    fun {w w'} hw ih hstep => ?_).2
  obtain ⟨old, hold, haccounted⟩ := ih
  have hkept : ∀ e ∈ old, AccountedFor present w'.reg e := fun e he =>
    (haccounted e he).later fun _ _ get => hstep.evolves hw get
  cases hstep with
  | @call op clock reply t licensed named run =>
    obtain ⟨calls, hcalls⟩ := hw.reached
    obtain ⟨new, hnew, hsigned⟩ := (Op.logs op).ok run
    refine ⟨old ++ new, by rw [hnew, hold, List.append_assoc], fun e he => ?_⟩
    rcases List.mem_append.mp he with he | he
    · exact hkept e he
    · exact licensed.accounted hcalls named run (hsigned e he)
  | _ => exact ⟨old, hold, hkept⟩

/-! ### Grants -/

/-- A published grant was there before, or it is one that its own service may have. -/
theorem Leads.granted (h : v.Leads present env v') {token : Text} {cap : Capability}
    (get : v'.grants.get token = some cap) :
    v.grants.get token = some cap ∨ present cap.callerServiceId ∧ Grantable cap := by
  induction h with
  | refl => exact .inl get
  | tail _ hstep ih =>
    cases hstep with
    | grant caller grantable =>
      rw [Dict.get_set] at get
      split at get
      · obtain rfl := Option.some.inj get
        exact .inr ⟨caller, grantable⟩
      · exact ih get
    | retire =>
      rw [pruneCapabilities, Dict.get_filter, Option.filter_eq_some_iff] at get
      exact ih get.1
    | _ => exact ih get

end Vault

end AssetStore
