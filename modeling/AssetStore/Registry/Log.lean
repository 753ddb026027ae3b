import AssetStore.Registry.Spec

/-! The audit log. It only grows, and a call appends events in the name of its caller. -/

namespace AssetStore

open Lib

/-- The log grows by events that meet `P`. -/
def Logs (P : AuditEvent → Prop) (s s' : Session) : Prop :=
  ∃ new, s'.reg.auditEvents = s.reg.auditEvents ++ new ∧ ∀ e ∈ new, P e

theorem Logs.of_same {P : AuditEvent → Prop} {s s' : Session}
    (h : s'.reg.auditEvents = s.reg.auditEvents) : Logs P s s' := ⟨[], by simp [h], by simp⟩

instance {P : AuditEvent → Prop} : Frame (Logs P) where
  refl _ := .of_same rfl
  trans := by
    rintro s s' s'' ⟨new, hnew, hP⟩ ⟨new', hnew', hP'⟩
    refine ⟨new ++ new', by rw [hnew', hnew, List.append_assoc], fun e he => ?_⟩
    exact (List.mem_append.mp he).elim (hP e) (hP' e)
  tick _ := .of_same rfl

/-- The event says that a capability for the scope was granted or denied. -/
structure AuditEvent.Issues (e : AuditEvent) (operation scopePrefix outcome : Text) : Prop where
  action : e.action = .capabilityIssue
  target : e.target = scopePrefix
  outcome : e.outcome = outcome
  operation : e.after.lookup "operation".toList = some operation

/-- The event says that a new asset got an alias in the bucket. -/
structure AuditEvent.Creates (e : AuditEvent) (id space : Text) : Prop where
  action : e.action = .aliasCreate
  target : ∃ path, e.target = space ++ '/' :: path
  asset : e.after.lookup "asset_id".toList = some id

/-- The event says that the asset went over to the state, and why. -/
structure AuditEvent.Retires (e : AuditEvent) (a : Asset) (state : AssetState) (reason : Text)
    (payloadDeleted : Bool) : Prop where
  action : e.action = if payloadDeleted then .payloadDelete else if state = .expired then
    .assetExpire else .assetDelete
  target : e.target = a.assetId
  before : e.before.lookup "state".toList = some a.state.value
  after : e.after.lookup "state".toList = some state.value
  reason : e.after.lookup "reason".toList = some reason

/-- What an event of a call says of its author and of what was done. -/
def Op.Signs (e : AuditEvent) : Op → Prop
  | .recordCapabilityIssue caller operation scopePrefix _ outcome _ =>
    e.callerServiceId = caller ∧ e.Issues operation scopePrefix outcome
  | .reserveAsset newId req =>
    e.callerServiceId = req.ownerServiceId ∧
      ((∃ space, normalizeSpace req.space = .ok space ∧ e.Creates newId space) ∨
        e.action = .uploadReserve ∧ e.target = newId)
  | .commitAsset id _ _ caller _ _ =>
    e.callerServiceId = caller ∧ e.action = .assetCommit ∧ e.target = id
  | .lifecycleUpdate a state _ reason payloadDeleted =>
    e.callerServiceId = "lifecycle-worker".toList ∧ e.Retires a state reason payloadDeleted
  | .attachAlias _ _ _ caller => e.callerServiceId = caller
  | .updateAnnotations _ _ caller _ => e.callerServiceId = caller
  | .detachAlias _ _ caller => e.callerServiceId = caller
  | .detachMutableAlias _ _ caller => e.callerServiceId = caller
  | .rebindAlias _ _ _ caller => e.callerServiceId = caller
  | .expireAsset _ caller => e.callerServiceId = caller
  | .deleteAsset _ caller => e.callerServiceId = caller
  | .setEvictionPolicy _ _ caller => e.callerServiceId = caller
  | .setPartitionQuota _ _ _ _ _ caller => e.callerServiceId = caller
  | .setAssetTtl _ _ caller => e.callerServiceId = caller
  | _ => False

namespace Logs

variable {P : AuditEvent → Prop} {env : Env} {id caller : Text}

theorem updateTables {g : Registry → Registry} (h : ∀ r, (g r).auditEvents = r.auditEvents) :
    Within (Logs P) (updateTables g) := Within.updateTables fun s => .of_same (h s.reg)

theorem audit {action : AuditAction} {target outcome : Text} {before after : List (Text × Text)}
    (h : ∀ ts, P (auditEvent action target caller before after outcome ts)) :
    Within (Logs P) (audit action target caller before after outcome) :=
  Within.bind Within.utcnow fun ts => Within.updateTables fun _ => ⟨_, rfl, fun e he => by
    obtain rfl := List.mem_singleton.mp he
    exact h ts⟩

theorem acquireQuota {space pid : Text} {n : Int} : Within (Logs P) (acquireQuota space pid n) :=
  Within.bind Within.partitionQuota fun _ => Within.bind (updateTables fun _ => rfl) fun _ =>
    Within.bind Within.bucketQuota fun _ => updateTables fun _ => rfl

theorem releaseQuota {a : Asset} : Within (Logs P) (releaseQuota a) :=
  Within.ite (Within.bind Within.partitionQuota fun _ =>
    Within.bind (updateTables fun _ => rfl) fun _ =>
    Within.bind Within.bucketQuota fun _ => updateTables fun _ => rfl) Within.pure

theorem removeAliasFromAsset {key : Text} : Within (Logs P) (removeAliasFromAsset id key) :=
  Within.bind Within.getAsset fun _ => Within.bind Within.utcnow fun _ => updateTables fun _ => rfl

theorem addAliasToAsset {key : Text} : Within (Logs P) (addAliasToAsset id key) :=
  Within.bind Within.getAsset fun _ => Within.bind Within.utcnow fun _ => updateTables fun _ => rfl

theorem markForGcIfOrphaned (h : ∀ e : AuditEvent, e.callerServiceId = caller → P e) :
    Within (Logs P) (markForGcIfOrphaned id caller) := by
  refine Within.bind Within.getAsset fun _ => Within.ite Within.pure ?_
  exact Within.bind Within.utcnow fun _ => Within.bind Within.utcnow fun _ =>
    Within.bind (updateTables fun _ => rfl) fun _ => Within.bind releaseQuota fun _ =>
      audit fun _ => h _ rfl

theorem buryName {key : Text} : Within (Logs P) (buryName key) :=
  Within.bind Within.tables fun _ =>
    Within.ite (Within.bind Within.utcnow fun _ => Within.bind Within.attempt fun _ =>
      updateTables fun _ => rfl) Within.pure

theorem requireAliasNameAvailable {space name : Text} :
    Within (Logs P) (requireAliasNameAvailable space name) :=
  Within.requireAliasNameAvailable fun _ _ => .of_same rfl

theorem bindNames {req : ReserveRequest} {space pid owner : Text} {now : Time}
    (hspace : normalizeSpace req.space = .ok space)
    (h : ∀ e : AuditEvent, e.callerServiceId = owner ∧ e.Creates id space → P e) :
    ∀ names, Within (Logs P) (bindNames space pid id owner now names)
  | [] => Within.pure
  | _ :: rest => by
    refine Within.bind Within.attempt fun path => Within.attempt_bind fun key hkey => ?_
    have htarget : ∃ path, key = space ++ '/' :: path := by
      obtain ⟨b, p, hb, -, rfl⟩ := qualifiedAlias_eq_ok.mp hkey
      obtain rfl : space = b := by
        rw [normalizeBucket_of_mem (normalizeBucket_eq_ok.mp hspace).2] at hb
        exact Except.ok.inj hb
      exact ⟨p, rfl⟩
    refine Within.bind (updateTables fun _ => rfl) fun _ => Within.bind (audit fun _ => ?_) fun _ =>
      bindNames hspace h rest
    exact h _ ⟨rfl, rfl, htarget, mapping_lookup_cons⟩

theorem reserveAsset {newId : Text} {req : ReserveRequest} :
    Within (Logs fun e => (Op.reserveAsset newId req).Signs e) (reserveAsset env newId req) := by
  have auditReservation : ∀ reserved, Within (Logs fun e => (Op.reserveAsset newId req).Signs e)
      (auditReservation newId req.ownerServiceId reserved)
    | none => Within.pure
    | some _ => audit fun _ => ⟨rfl, .inr ⟨rfl, rfl⟩⟩
  refine Within.attempt_bind fun space hspace => Within.bind Within.attempt fun _ =>
    Within.bind Within.attempt fun _ => ?_
  refine Within.bind (Within.requireNamesAvailable (fun _ _ => .of_same rfl) _) fun _ => ?_
  refine Within.bind (Within.admitReservation _) fun _ => Within.bind Within.utcnow fun _ => ?_
  refine Within.bind Within.attempt fun _ => Within.bind Within.attempt fun _ =>
    Within.bind Within.attempt fun _ => Within.bind (updateTables fun _ => rfl) fun _ => ?_
  refine Within.bind (bindNames hspace (fun e he => ⟨he.1, .inl ⟨space, hspace, he.2⟩⟩) _) fun _ =>
    ?_
  exact Within.bind (auditReservation _) fun _ => Within.pure

theorem commitAsset {checksum : Text} {size : Int} {mime expected : Option Text} :
    Within (Logs fun e => (Op.commitAsset id size checksum caller mime expected).Signs e)
      (commitAsset env id size checksum caller mime expected) := by
  refine Within.bind Within.attempt fun _ => Within.bind Within.attempt fun _ =>
    Within.bind Within.attempt fun _ => Within.bind Within.getAsset fun _ => ?_
  refine Within.bind Within.attempt fun _ => Within.bind Within.attempt fun _ =>
    Within.bind Within.enforceQuota fun _ => Within.bind Within.utcnow fun _ => ?_
  exact Within.bind (updateTables fun _ => rfl) fun _ => Within.bind acquireQuota fun _ =>
    Within.bind (audit fun _ => ⟨rfl, rfl, rfl⟩) fun _ => Within.pure

theorem attachAlias {name : Text} {mutable : Bool} :
    Within (Logs fun e => e.callerServiceId = caller) (attachAlias id name mutable caller) := by
  refine Within.bind Within.getAsset fun _ => Within.bind Within.attempt fun _ =>
    Within.bind Within.attempt fun _ => Within.bind Within.attempt fun _ => ?_
  refine Within.bind requireAliasNameAvailable fun _ => Within.bind Within.attempt fun _ =>
    Within.bind Within.utcnow fun _ => Within.bind (updateTables fun _ => rfl) fun _ => ?_
  exact Within.bind addAliasToAsset fun _ => Within.bind (audit fun _ => rfl) fun _ => Within.pure

theorem updateAnnotations {patch : Mapping} {overwrite : Bool} :
    Within (Logs fun e => e.callerServiceId = caller)
      (updateAnnotations id patch caller overwrite) := by
  refine Within.bind Within.getAsset fun _ => Within.bind Within.attempt fun _ =>
    Within.bind Within.utcnow fun _ => Within.bind (updateTables fun _ => rfl) fun _ => ?_
  refine Within.bind Within.utcnow fun _ =>
    Within.bind (Within.updateTables fun _ => ⟨_, rfl, ?_⟩) fun _ =>
    Within.pure
  intro e he
  rw [List.mem_singleton.mp he]

theorem detachAlias {space name : Text} :
    Within (Logs fun e => e.callerServiceId = caller) (detachAlias space name caller) := by
  refine Within.bind Within.getBinding fun _ => Within.bind Within.attempt fun _ =>
    Within.bind Within.attempt fun _ => Within.bind Within.attempt fun _ => ?_
  refine Within.bind (updateTables fun _ => rfl) fun _ =>
    Within.bind removeAliasFromAsset fun _ => ?_
  exact Within.bind buryName fun _ => Within.bind (audit fun _ => rfl) fun _ =>
    markForGcIfOrphaned fun _ h => h

theorem detachMutableAlias {space name : Text} :
    Within (Logs fun e => e.callerServiceId = caller) (detachMutableAlias space name caller) := by
  refine Within.bind Within.getBinding fun _ => Within.bind Within.attempt fun _ =>
    Within.bind Within.attempt fun _ => Within.bind Within.attempt fun _ => ?_
  refine Within.bind removeAliasFromAsset fun _ => Within.bind Within.utcnow fun _ => ?_
  refine Within.bind (updateTables fun _ => rfl) fun _ =>
    Within.bind (audit fun _ => rfl) fun _ => ?_
  exact Within.bind (markForGcIfOrphaned fun _ h => h) fun _ => Within.pure

theorem rebindAlias {space name newId : Text} :
    Within (Logs fun e => e.callerServiceId = caller) (rebindAlias space name newId caller) := by
  refine Within.bind Within.getBinding fun _ => Within.bind Within.attempt fun _ =>
    Within.bind Within.attempt fun _ => Within.bind Within.getAsset fun _ => ?_
  refine Within.bind Within.attempt fun _ => Within.bind Within.attempt fun _ =>
    Within.bind Within.attempt fun _ => Within.bind Within.attempt fun _ => ?_
  refine Within.bind Within.attempt fun _ => Within.bind Within.utcnow fun _ => ?_
  refine Within.bind (updateTables fun _ => rfl) fun _ => Within.bind addAliasToAsset fun _ => ?_
  exact Within.bind (audit fun _ => rfl) fun _ => Within.pure

theorem expireAsset :
    Within (Logs fun e => e.callerServiceId = caller) (expireAsset id caller) := by
  refine Within.bind Within.getAsset fun _ => Within.bind Within.attempt fun _ =>
    Within.bind Within.utcnow fun _ => Within.bind Within.utcnow fun _ => ?_
  exact Within.bind (updateTables fun _ => rfl) fun _ => Within.bind releaseQuota fun _ =>
    Within.bind (audit fun _ => rfl) fun _ => Within.pure

theorem deleteAsset :
    Within (Logs fun e => e.callerServiceId = caller) (deleteAsset id caller) := by
  refine Within.bind Within.getAsset fun _ => Within.bind Within.attempt fun _ =>
    Within.bind Within.utcnow fun _ => Within.bind (updateTables fun _ => rfl) fun _ => ?_
  exact Within.bind releaseQuota fun _ => Within.bind (audit fun _ => rfl) fun _ => Within.pure

theorem setEvictionPolicy {policy : EvictionPolicy} :
    Within (Logs fun e => e.callerServiceId = caller) (setEvictionPolicy id policy caller) := by
  refine Within.bind Within.getAsset fun _ => Within.bind Within.attempt fun _ =>
    Within.bind Within.utcnow fun _ => Within.bind (updateTables fun _ => rfl) fun _ => ?_
  exact Within.bind (audit fun _ => rfl) fun _ => Within.pure

theorem setPartitionQuota {space pid : Text} {bytes count : Option Int} {sweep : Option Bool} :
    Within (Logs fun e => e.callerServiceId = caller)
      (setPartitionQuota space pid bytes count sweep caller) := by
  refine Within.bind Within.attempt fun _ => Within.bind Within.attempt fun _ =>
    Within.bind Within.partitionQuota fun _ => Within.bind (updateTables fun _ => rfl) fun _ => ?_
  exact Within.bind (audit fun _ => rfl) fun _ => Within.pure

theorem setBucketQuota {space : Text} {bytes : Option Int} {warn hard : Rat} :
    Within (Logs P) (setBucketQuota space bytes warn hard) :=
  Within.bind Within.attempt fun _ => Within.bind Within.bucketQuota fun _ =>
    Within.bind (updateTables fun _ => rfl) fun _ => Within.pure

theorem recordRead : Within (Logs P) (recordRead id) :=
  Within.bind Within.getAsset fun _ =>
    Within.ite (Within.bind Within.utcnow fun _ => updateTables fun _ => rfl) Within.pure

theorem lifecycleUpdate {a : Asset} {state : AssetState} {now : Time} {reason : Text}
    {purge : Bool} :
    Within (Logs fun e => (Op.lifecycleUpdate a state now reason purge).Signs e)
      (lifecycleUpdate a state now reason purge) := by
  refine Within.bind Within.getAsset fun _ => Within.bind Within.attempt fun _ =>
    Within.bind Within.attempt fun _ => Within.bind releaseQuota fun _ => ?_
  refine Within.bind (updateTables fun _ => rfl) fun _ =>
    Within.bind (audit fun _ => ⟨rfl, rfl, rfl, mapping_lookup_cons, mapping_lookup_cons, ?_⟩)
      fun _ =>
      Within.pure
  exact (mapping_lookup_cons_ne (by decide)).trans mapping_lookup_cons

theorem setAssetTtl {ttl : Int} :
    Within (Logs fun e => e.callerServiceId = caller) (setAssetTtl env id ttl caller) := by
  have admitRestore : ∀ a, Within (Logs fun e => e.callerServiceId = caller) (admitRestore env a) :=
    fun _ => Within.ite (Within.bind Within.enforceQuota fun _ => acquireQuota) Within.pure
  refine Within.bind Within.getAsset fun _ => Within.bind Within.attempt fun _ =>
    Within.bind Within.attempt fun _ => Within.bind Within.utcnow fun _ =>
      Within.bind Within.attempt fun _ => ?_
  refine Within.bind (admitRestore _) fun _ => Within.bind (updateTables fun _ => rfl) fun _ => ?_
  exact Within.bind (audit fun _ => rfl) fun _ => Within.pure

end Logs

variable {env : Env}

/-- Whatever a call does, the log only grows, and by events in the name of its caller. -/
theorem Op.logs (op : Op) : Within (Logs fun e => op.Signs e) (op.run env) := by
  have read : ∀ {α β : Type} {m : RegM α} {f : α → β} {P : AuditEvent → Prop}, Within (Logs P) m →
      Within (Logs P) (m >>= fun x => pure (f x)) := fun h => Within.bind h fun _ => Within.pure
  cases op with
  | recordCapabilityIssue =>
    refine Within.bind (Logs.audit fun _ => ?_) fun _ => Within.pure
    exact ⟨rfl, rfl, rfl, rfl, mapping_lookup_cons⟩
  | reserveAsset => exact read Logs.reserveAsset
  | attachAlias => exact read Logs.attachAlias
  | commitAsset => exact read Logs.commitAsset
  | updateAnnotations => exact read Logs.updateAnnotations
  | resolveAlias => exact read Within.resolveAlias
  | detachAlias => exact Within.bind Logs.detachAlias fun _ => Within.pure
  | detachMutableAlias => exact read Logs.detachMutableAlias
  | rebindAlias => exact read Logs.rebindAlias
  | expireAsset => exact read Logs.expireAsset
  | deleteAsset => exact read Logs.deleteAsset
  | setEvictionPolicy => exact read Logs.setEvictionPolicy
  | setPartitionQuota => exact read Logs.setPartitionQuota
  | setBucketQuota => exact read Logs.setBucketQuota
  | getPartitionQuota => exact read Within.partitionQuota
  | getBucketQuota => exact read Within.bucketQuota
  | reservedUploadBytes =>
    exact read (Within.bind Within.tables fun _ => Within.bind Within.attempt fun _ => Within.pure)
  | listAssets => exact read (Within.bind Within.tables fun _ => Within.pure)
  | recordRead => exact Within.bind Logs.recordRead fun _ => Within.pure
  | lifecycleUpdate => exact read Logs.lifecycleUpdate
  | recentAudit =>
    exact read (Within.bind Within.attempt fun _ => Within.bind Within.tables fun _ => Within.pure)
  | getAsset => exact read Within.getAsset
  | queryAssets =>
    exact read (Within.bind Within.attempt fun _ => Within.bind Within.tables fun _ => Within.pure)
  | setAssetTtl => exact read Logs.setAssetTtl
  | auditEvents => exact Within.bind Within.tables fun _ => Within.pure

end AssetStore
