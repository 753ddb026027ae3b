import AssetStore.Registry.Books
import AssetStore.Registry.Upload

/-! What a call does to the tables. A call that returns is a sequence of changes: an alias bound or
unbound on both sides of the index, a lifecycle transition of one asset, an entry of the audit log,
a note on a record, or bookkeeping. The invariants of the registry are proved change by change. -/

namespace AssetStore

open Lib Relation

/-! ### Changes -/

/-- The instant is a reading of the clock. -/
def Reads (clock : Nat → Time) (t : Time) : Prop := ∃ n, clock n = t

/-- At most tombstones whose grace period has elapsed are gone. -/
def Forgotten (clock : Nat → Time) (t t' : Dict Text Time) : Prop :=
  ∀ key, t'.get key = t.get key ∨
    t'.get key = none ∧ ∃ deadline now, t.get key = some deadline ∧ Reads clock now ∧ deadline ≤ now

/-- The events that say nothing about bindings and states. -/
def AuditAction.Neutral : AuditAction → Prop
  | .capabilityIssue | .uploadReserve | .annotationsUpdate | .evictionPolicySet | .quotaSet => True
  | _ => False

/-- What a new binding says. -/
structure NewBinding (clock : Nat → Time) (a : Asset) (id name : Text) (mutable : Bool) (key : Text)
    (b : AliasBinding) : Prop where
  space : normalizeSpace a.space = .ok b.space
  path : aliasUnderPartition a.partitionId name = .ok b.aliasName
  key : b.qualifiedAlias = .ok key
  bound : b.assetId = some id
  previous : b.previousAssetId = none
  mutable : b.mutable = mutable
  created : Reads clock b.createdAt

/-- What a reservation stores. -/
structure NewAsset (env : Env) (clock : Nat → Time) (newId : Text) (req : ReserveRequest)
    (a : Asset) :
    Prop where
  assetId : a.assetId = newId
  space : normalizeSpace req.space = .ok a.space
  partitionId : normalizePartitionId req.partitionId = .ok a.partitionId
  storageKey : buildStorageKey a.partitionId newId = .ok a.storageKey
  state : a.state = .pending
  sizeBytes : a.sizeBytes = none
  reservedBytes : a.reservedBytes = req.reservedBytes
  checksum : a.checksum = none
  expiresAt : ∃ now, Reads clock now ∧ expiryFor env a.space req.ttlSeconds now = .ok a.expiresAt
  expiredAt : a.expiredAt = none
  payloadDeletedAt : a.payloadDeletedAt = none

/-- The event of a new binding. -/
def bindEvent (action : AuditAction) (key id : Text) (mutable : Bool) (caller : Text) (ts : Time) :
    AuditEvent :=
  auditEvent action key caller [] [("asset_id".toList, id), ("mutable".toList, showLower mutable)]
    "success".toList ts

/-- The table with more bindings. -/
def bindAll (aliases : Dict Text AliasBinding) (new : List (Text × AliasBinding)) :
    Dict Text AliasBinding :=
  new.foldl (fun d kb => d.set kb.1 kb.2) aliases

/-- The tombstones after a name is buried. -/
def Registry.buried (r : Registry) (key : Text) (now : Time) : Dict Text Time :=
  if 0 < r.aliasGrace then r.tombstones.set key (now + r.aliasGrace) else r.tombstones

/-- The call detaches an immutable alias, and the grace period ends after the last `datetime`. -/
def Op.Overflows (clock : Nat → Time) (grace : Int) : Op → Prop
  | .detachAlias .. => 0 < grace ∧ maxTime < clock 1 + grace
  | _ => False

/-- The key under which an alias is looked up. -/
def aliasKey (space aliasName : Text) : Except Err Text := do
  let normSpace ← normalizeSpace space
  let normAlias ← normalizeRelativeAlias aliasName
  qualifiedAlias normSpace normAlias

/-- A lifecycle transition of an asset and the event that records it. -/
inductive Transition (env : Env) (clock : Nat → Time) (id : Text) (a : Asset) :
    Op → AuditAction → Asset → Prop
  | commit {size : Int} {checksum caller : Text} {mime expected : Option Text} {now : Time}
      (before : a.state = .pending) (size_nonneg : 0 ≤ size) (nonempty : stripSpace checksum ≠ [])
      (reserved : ∀ n ∈ a.reservedBytes, n = size) :
      Transition env clock id a (.commitAsset id size checksum caller mime expected) .assetCommit
        (committed a size (stripSpace checksum) mime now)
  | expire {caller : Text} {updatedAt t : Time} (before : a.state = .available)
      (reads : Reads clock t) :
      Transition env clock id a (.expireAsset id caller) .assetExpire
        { a with state := .expired, updatedAt, expiredAt := some t }
  | orphan {op : Op} {updatedAt t : Time} (detaches : ∃ space name caller,
        op = .detachAlias space name caller ∨ op = .detachMutableAlias space name caller)
      (nameless : a.aliases = ∅) (before : a.state = .pending ∨ a.state = .available)
      (reads : Reads clock t) :
      Transition env clock id a op .gcMark
        { a with state := .expired, updatedAt, expiredAt := some t }
  | delete {caller : Text} {updatedAt : Time} (before : a.state = .available ∨ a.state = .expired) :
      Transition env clock id a (.deleteAsset id caller) .assetDelete
        { a with state := .deleted, updatedAt }
  | lapse {now : Time} {reason : Text} (before : a.state = .available) :
      Transition env clock id a (.lifecycleUpdate a .expired now reason false) .assetExpire
        { a with state := .expired, updatedAt := now, expiredAt := some now }
  | retire {now : Time} {reason : Text}
      (before : a.state = .pending ∨ a.state = .expired ∨ a.state = .deleted)
      (unpurged : a.payloadDeletedAt = none) :
      Transition env clock id a (.lifecycleUpdate a .deleted now reason false) .assetDelete
        { a with state := .deleted, updatedAt := now }
  | purge {now : Time} {reason : Text} (before : a.state = .deleted)
      (unpurged : a.payloadDeletedAt = none) :
      Transition env clock id a (.lifecycleUpdate a .deleted now reason true) .payloadDelete
        { a with state := .deleted, updatedAt := now, payloadDeletedAt := some now }
  | restore {ttl : Int} {caller : Text} {now : Time} {deadline : Option Time}
      (before : a.state = .available ∨ a.state = .expired)
      (committed : a.sizeBytes ≠ none ∧ a.checksum ≠ none)
      (expiry : expiryFor env a.space (some ttl) now = .ok deadline) :
      Transition env clock id a (.setAssetTtl id ttl caller) .ttlSet
        { a with state := .available, expiresAt := deadline, expiredAt := none, updatedAt := now }

/-- The event records the transition from one state to another. -/
structure Records (e : AuditEvent) (action : AuditAction) (id : Text) (before after : AssetState) :
    Prop where
  action : e.action = action
  target : e.target = id
  before : e.before.lookup "state".toList = some before.value
  after : e.after.lookup "state".toList = some after.value

/-- One change of the tables in a call. -/
inductive Change (env : Env) (clock : Nat → Time) (r : Registry) : Op → Registry → Prop
  | forget {op : Op} {t : Dict Text Time} (elapsed : Forgotten clock r.tombstones t) :
      Change env clock r op { r with tombstones := t }
  | charge {op : Op} {p : Dict (Text × Text) PartitionQuota} {b : Dict Text BucketQuota} :
      Change env clock r op { r with partitionQuotas := p, bucketQuotas := b }
  | log {op : Op} {e : AuditEvent} (neutral : e.action.Neutral) :
      Change env clock r op { r with auditEvents := r.auditEvents ++ [e] }
  | note {op : Op} {id : Text} {a : Asset} {annotations : Mapping} {evictionPolicy : EvictionPolicy}
      {lastReadAt : Option Time} {readCount : Int} {updatedAt : Time}
      (get : r.assets.get id = some a) :
      Change env clock r op
        { r with
          assets := r.assets.set id
            { a with annotations, evictionPolicy, lastReadAt, readCount, updatedAt } }
  | reserve {newId : Text} {req : ReserveRequest} {a : Asset} {new : List (Text × AliasBinding)}
      {events : List AuditEvent} (fresh : r.assets.get newId = none)
      (asset : NewAsset env clock newId req a)
      (aliases : a.aliases = (new.map Prod.fst).toFinset) (named : req.aliases ≠ [] → new ≠ [])
      (bindings : ∀ kb ∈ new, ∃ name, NewBinding clock a newId name kb.2.mutable kb.1 kb.2)
      (free : ∀ kb ∈ new, r.aliases.get kb.1 = none ∧ r.tombstones.get kb.1 = none)
      (logged : List.Forall₂ (fun kb e => ∃ caller ts,
        e = bindEvent .aliasCreate kb.1 newId kb.2.mutable caller ts) new events) :
      Change env clock r (.reserveAsset newId req)
        { r with
          assets := r.assets.set newId a, aliases := bindAll r.aliases new
          auditEvents := r.auditEvents ++ events }
  | attach {id name caller key : Text} {mutable : Bool} {a : Asset} {b : AliasBinding}
      {updatedAt ts : Time} (get : r.assets.get id = some a) (live : a.state ≠ .deleted)
      (binding : NewBinding clock a id name mutable key b)
      (free : r.aliases.get key = none ∧ r.tombstones.get key = none) :
      Change env clock r (.attachAlias id name mutable caller)
        { r with
          assets := r.assets.set id { a with aliases := insert key a.aliases, updatedAt }
          aliases := r.aliases.set key b
          auditEvents := r.auditEvents ++ [bindEvent .aliasAttach key id mutable caller ts] }
  | detach {space name caller found key id : Text} {a : Asset} {b : AliasBinding}
      {updatedAt now ts : Time} (lookup : aliasKey space name = .ok found)
      (get : r.aliases.get found = some b) (own : b.qualifiedAlias = .ok key)
      (immutable : b.mutable = false) (bound : b.assetId = some id)
      (asset : r.assets.get id = some a) (reads : Reads clock now) :
      Change env clock r (.detachAlias space name caller)
        { r with
          assets := r.assets.set id { a with aliases := a.aliases.erase key, updatedAt }
          aliases := r.aliases.erase key, tombstones := r.buried key now
          auditEvents := r.auditEvents ++ [auditEvent .aliasDetach key caller
            [("asset_id".toList, id)] [] "success".toList ts] }
  | drop {space name caller found key id : Text} {a : Asset} {b : AliasBinding} {updatedAt : Time}
      (lookup : aliasKey space name = .ok found) (get : r.aliases.get found = some b)
      (own : b.qualifiedAlias = .ok key) (immutable : b.mutable = false)
      (bound : b.assetId = some id) (asset : r.assets.get id = some a)
      (overflows : (Op.detachAlias space name caller).Overflows clock r.aliasGrace) :
      Change env clock r (.detachAlias space name caller)
        { r with
          assets := r.assets.set id { a with aliases := a.aliases.erase key, updatedAt }
          aliases := r.aliases.erase key }
  | unbind {space name caller found key id : Text} {a : Asset} {b : AliasBinding}
      {updatedAt now ts : Time} (lookup : aliasKey space name = .ok found)
      (get : r.aliases.get found = some b) (own : b.qualifiedAlias = .ok key)
      (mutable : b.mutable = true) (bound : b.assetId = some id)
      (asset : r.assets.get id = some a) :
      Change env clock r (.detachMutableAlias space name caller)
        { r with
          assets := r.assets.set id { a with aliases := a.aliases.erase key, updatedAt }
          aliases := r.aliases.set key
            { b with assetId := none, previousAssetId := some id, updatedAt := now }
          auditEvents := r.auditEvents ++ [auditEvent .aliasDetachMutable key caller
            [("asset_id".toList, id)] [("asset_id".toList, [])] "success".toList ts] }
  | rebind {space name caller found key id : Text} {a : Asset} {b : AliasBinding}
      {updatedAt now ts : Time} (lookup : aliasKey space name = .ok found)
      (get : r.aliases.get found = some b) (own : b.qualifiedAlias = .ok key)
      (mutable : b.mutable = true) (unbound : b.assetId = none)
      (asset : r.assets.get id = some a) (sameSpace : a.space = b.space)
      (partition : partitionFromScopedAlias b.aliasName = .ok a.partitionId)
      (state : a.state = .available) :
      Change env clock r (.rebindAlias space name id caller)
        { r with
          assets := r.assets.set id { a with aliases := insert key a.aliases, updatedAt }
          aliases := r.aliases.set key
            { b with assetId := some id, previousAssetId := none, updatedAt := now }
          auditEvents := r.auditEvents ++ [auditEvent .aliasRebind key caller
            [("asset_id".toList, b.previousAssetId.getD [])] [("asset_id".toList, id)]
            "success".toList ts] }
  | move {op : Op} {id : Text} {a a' : Asset} {action : AuditAction} {e : AuditEvent}
      (get : r.assets.get id = some a) (step : Transition env clock id a op action a')
      (records : Records e action id a.state a'.state) :
      Change env clock r op
        { r with assets := r.assets.set id a', auditEvents := r.auditEvents ++ [e] }

/-- The changes of one call. -/
def Changes (env : Env) (clock : Nat → Time) (op : Op) : Registry → Registry → Prop :=
  ReflTransGen fun r r' => Change env clock r op r'

/-! ### Checks that only drop tombstones -/

/-- Only readings were taken and elapsed tombstones dropped. -/
structure Sweeps (s s' : Session) : Prop where
  later : Later s s'
  reg : s'.reg = { s.reg with tombstones := s'.reg.tombstones }
  elapsed : Forgotten s.clock s.reg.tombstones s'.reg.tombstones

theorem Later.reads {s s' : Session} {t : Time} (h : Later s s') (ht : Reads s'.clock t) :
    Reads s.clock t := by
  obtain ⟨n, hn⟩ := h
  obtain ⟨k, hk⟩ := ht
  exact ⟨n + k, by rw [← hk, hn]⟩

theorem Forgotten.refl (clock : Nat → Time) (t : Dict Text Time) : Forgotten clock t t :=
  fun _ => .inl rfl

instance : Frame Sweeps where
  refl s := ⟨Closed.refl s, rfl, .refl _ _⟩
  trans := by
    intro s s' s'' h h'
    refine ⟨Closed.trans h.later h'.later, ?_, fun key => ?_⟩
    · rw [h'.reg, h.reg]
    · rcases h'.elapsed key with hsame | ⟨hnone, deadline, now, hget, hreads, hle⟩
      · rw [hsame]
        exact h.elapsed key
      · rcases h.elapsed key with hsame | ⟨hgone, -⟩
        · exact .inr ⟨hnone, deadline, now, hsame ▸ hget, h.later.reads hreads, hle⟩
        · rw [hgone] at hget
          cases hget
  tick s := ⟨Frame.tick s, rfl, .refl _ _⟩

section Names

variable {s s' : Session} {space name : Text}

theorem aliasNameIsBlocked_sweeps : Within Sweeps (aliasNameIsBlocked space name) := by
  refine Within.bind Within.attempt fun key s => ?_
  refine Lib.final_bind (by simp) fun r s1 h => ?_
  obtain ⟨rfl, rfl⟩ := tables_eq_ok.mp h
  split
  · exact Closed.refl s
  · cases htomb : s.reg.tombstones.get key with
    | none => exact Closed.refl s
    | some deadline =>
      refine Lib.final_bind (by simp) fun now s1 h => ?_
      obtain ⟨rfl, rfl⟩ := utcnow_eq_ok.mp h
      split
      · rename_i helapsed
        have hlater : Later s s.tick := Frame.tick s
        refine ⟨hlater, rfl, fun other => ?_⟩
        change (s.reg.tombstones.erase key).get other = _ ∨
          (s.reg.tombstones.erase key).get other = none ∧ _
        rw [Dict.get_erase]
        split
        · rename_i heq
          subst heq
          exact .inr ⟨rfl, deadline, _, htomb, ⟨0, rfl⟩, helapsed⟩
        · exact .inl rfl
      · exact Frame.tick s

theorem aliasNameIsBlocked_free (h : aliasNameIsBlocked space name s = .ok false s') :
    ∃ key, qualifiedAlias space name = .ok key ∧ s'.reg.aliases.get key = none ∧
      s'.reg.tombstones.get key = none := by
  simp only [aliasNameIsBlocked, bind_eq_ok, attempt_eq_ok, tables_eq_ok] at h
  obtain ⟨key, _, ⟨hkey, rfl⟩, _, _, ⟨rfl, rfl⟩, h⟩ := h
  refine ⟨key, hkey, ?_⟩
  split at h
  · simp at h
  · rename_i hfree
    have hnone : s.reg.aliases.get key = none := by simpa using hfree
    cases htomb : s.reg.tombstones.get key with
    | none =>
      simp only [htomb, pure_eq_ok, true_and] at h
      exact h ▸ ⟨hnone, htomb⟩
    | some deadline =>
      simp only [htomb, bind_eq_ok, utcnow_eq_ok] at h
      obtain ⟨_, _, ⟨rfl, rfl⟩, h⟩ := h
      split at h
      · simp only [bind_eq_ok, updateTables_eq_ok, pure_eq_ok, true_and] at h
        obtain ⟨_, _, rfl, rfl⟩ := h
        exact ⟨hnone, Dict.get_erase_self _ _⟩
      · simp at h

theorem requireAliasNameAvailable_sweeps : Within Sweeps (requireAliasNameAvailable space name) :=
  Within.bind aliasNameIsBlocked_sweeps fun _ =>
    Within.ite (Within.bind Within.attempt fun _ => Within.attempt) Within.pure

theorem requireAliasNameAvailable_free {u : Unit}
    (h : requireAliasNameAvailable space name s = .ok u s') :
    ∃ key, qualifiedAlias space name = .ok key ∧ s'.reg.aliases.get key = none ∧
      s'.reg.tombstones.get key = none := by
  simp only [requireAliasNameAvailable, bind_eq_ok] at h
  obtain ⟨blocked, s1, hb, h⟩ := h
  cases blocked with
  | true => simp at h
  | false =>
    simp only [Bool.false_eq_true, if_false, pure_eq_ok, true_and] at h
    exact h ▸ aliasNameIsBlocked_free hb

theorem requireNamesAvailable_sweeps {pid : Text} : ∀ names : List Text,
    Within Sweeps (requireNamesAvailable space pid names)
  | [] => Within.pure
  | _ :: rest =>
    Within.bind Within.attempt fun _ => Within.bind requireAliasNameAvailable_sweeps fun _ =>
      requireNamesAvailable_sweeps rest

/-- A name that is free stays free while tombstones are dropped. -/
theorem Sweeps.free {key : Text} (h : Sweeps s s') (halias : s.reg.aliases.get key = none)
    (htomb : s.reg.tombstones.get key = none) :
    s'.reg.aliases.get key = none ∧ s'.reg.tombstones.get key = none := by
  refine ⟨by rw [h.reg]; exact halias, ?_⟩
  rcases h.elapsed key with hsame | ⟨hnone, -⟩
  · rw [hsame, htomb]
  · exact hnone

theorem requireNamesAvailable_free {pid : Text} : ∀ {names : List Text} {u : Unit} {s s' : Session},
    requireNamesAvailable space pid names s = .ok u s' →
    ∀ name ∈ names, ∃ key, scopedKey space pid name = .ok key ∧
      s'.reg.aliases.get key = none ∧ s'.reg.tombstones.get key = none
  | [], _, _, _, _ => by simp
  | name :: rest, _, s, s', h => by
    simp only [requireNamesAvailable, bind_eq_ok, attempt_eq_ok] at h
    obtain ⟨scopedName, _, ⟨hscoped, rfl⟩, _, s1, hname, hrest⟩ := h
    obtain ⟨key, hkey, halias, htomb⟩ := requireAliasNameAvailable_free hname
    intro other hother
    rcases List.mem_cons.mp hother with rfl | hother
    · refine ⟨key, by simp [scopedKey, hscoped, hkey], ?_⟩
      exact ((requireNamesAvailable_sweeps rest).ok hrest).free halias htomb
    · exact requireNamesAvailable_free hrest other hother

end Names

/-! ### The calls -/

section Calls

variable {env : Env} {s s' : Session} {id caller : Text} {a a' : Asset} {u : Unit}

theorem acquireQuota_charges {space pid : Text} {n : Int}
    (h : acquireQuota space pid n s = .ok u s') :
    ∃ p b, s' = { s with reg := { s.reg with partitionQuotas := p, bucketQuotas := b } } := by
  simp only [acquireQuota, partitionQuota, bucketQuota, putPartitionQuota,
    putBucketQuota, bind_eq_ok, attempt_eq_ok, tables_eq_ok, pure_eq_ok, updateTables_eq_ok] at h
  obtain ⟨_, _, ⟨_, _, ⟨-, rfl⟩, _, _, ⟨-, rfl⟩, _, _, ⟨rfl, rfl⟩, -, rfl⟩, _, _, rfl, _, _,
    ⟨_, _, ⟨-, rfl⟩, _, _, ⟨rfl, rfl⟩, -, rfl⟩, rfl⟩ := h
  exact ⟨_, _, rfl⟩

theorem releaseQuota_charges (h : releaseQuota a s = .ok u s') :
    ∃ p b, s' = { s with reg := { s.reg with partitionQuotas := p, bucketQuotas := b } } := by
  unfold releaseQuota at h
  split at h
  · simp only [partitionQuota, bucketQuota, putPartitionQuota, putBucketQuota, bind_eq_ok,
      attempt_eq_ok, tables_eq_ok, pure_eq_ok, updateTables_eq_ok] at h
    obtain ⟨_, _, ⟨_, _, ⟨-, rfl⟩, _, _, ⟨-, rfl⟩, _, _, ⟨rfl, rfl⟩, -, rfl⟩, _, _, rfl, _, _,
      ⟨_, _, ⟨-, rfl⟩, _, _, ⟨rfl, rfl⟩, -, rfl⟩, rfl⟩ := h
    exact ⟨_, _, rfl⟩
  · obtain ⟨-, rfl⟩ := pure_eq_ok.mp h
    exact ⟨_, _, rfl⟩

theorem enforceQuota_same {space pid : Text} {n : Int} {exclude : Option Text}
    (h : enforceQuota env space pid n exclude s = .ok u s') : s' = s := by
  simp only [enforceQuota, partitionQuota, bucketQuota, bind_eq_ok, attempt_eq_ok, tables_eq_ok,
    pure_eq_ok] at h
  obtain ⟨_, _, ⟨-, rfl⟩, _, _, ⟨_, _, ⟨-, rfl⟩, _, _, ⟨-, rfl⟩, _, _, ⟨-, rfl⟩, -, rfl⟩, _,
    _, ⟨-, rfl⟩,
    _, _, ⟨-, rfl⟩, _, _, ⟨-, rfl⟩, _, _, ⟨-, rfl⟩, _, _,
    ⟨_, _, ⟨-, rfl⟩, _, _, ⟨-, rfl⟩, -, rfl⟩, -,
    rfl⟩ := h
  rfl

/-- A transition together with its effect on the quotas. -/
theorem changes_of_move {clock : Nat → Time} {op : Op} {r r' : Registry} {action : AuditAction}
    {e : AuditEvent} {p : Dict (Text × Text) PartitionQuota} {b : Dict Text BucketQuota}
    (get : r.assets.get id = some a) (step : Transition env clock id a op action a')
    (records : Records e action id a.state a'.state)
    (after : r' =
      { r with
        assets := r.assets.set id a', auditEvents := r.auditEvents ++ [e], partitionQuotas := p
        bucketQuotas := b }) : Changes env clock op r r' := by
  subst after
  exact ReflTransGen.tail (.single (.move get step records)) (.charge (p := p) (b := b))

theorem records_of {action : AuditAction} {before after : AssetState}
    {rest rest' : List (Text × Text)} {outcome : Text} {ts : Time} :
    Records (auditEvent action id caller (("state".toList, before.value) :: rest)
      (("state".toList, after.value) :: rest') outcome ts) action id before after :=
  ⟨rfl, rfl, mapping_lookup_cons, mapping_lookup_cons⟩

theorem expireAsset_changes (h : expireAsset id caller s = .ok a' s') :
    Changes env s.clock (.expireAsset id caller) s.reg s'.reg := by
  simp only [expireAsset, bind_eq_ok, getAsset_eq_ok, attempt_eq_ok, raiseIf_eq_ok, utcnow_eq_ok,
    putAsset_eq_ok, audit_eq_ok, pure_eq_ok, ne_eq, not_not] at h
  obtain ⟨a, _, ⟨get, rfl⟩, _, _, ⟨hstate, rfl⟩, _, _, ⟨rfl, rfl⟩, _, _, ⟨rfl, rfl⟩, _,
    _, rfl, _, _,
    hrelease, _, _, rfl, rfl, rfl⟩ := h
  obtain ⟨p, b, rfl⟩ := releaseQuota_charges hrelease
  exact changes_of_move get (.expire (t := s.clock 1) hstate ⟨1, rfl⟩) records_of rfl

theorem deleteAsset_changes (h : deleteAsset id caller s = .ok a' s') :
    Changes env s.clock (.deleteAsset id caller) s.reg s'.reg := by
  simp only [deleteAsset, bind_eq_ok, getAsset_eq_ok, attempt_eq_ok, raiseIf_eq_ok, utcnow_eq_ok,
    putAsset_eq_ok, audit_eq_ok, pure_eq_ok, ne_eq, not_and_or, not_not] at h
  obtain ⟨a, _, ⟨get, rfl⟩, _, _, ⟨hstate, rfl⟩, _, _, ⟨rfl, rfl⟩, _, _, rfl, _, _,
    hrelease, _, _, rfl,
    rfl, rfl⟩ := h
  obtain ⟨p, b, rfl⟩ := releaseQuota_charges hrelease
  exact changes_of_move get (.delete hstate) records_of rfl

theorem commitAsset_changes {size : Int} {checksum : Text} {mime expected : Option Text}
    (h : commitAsset env id size checksum caller mime expected s = .ok a' s') :
    Changes env s.clock (.commitAsset id size checksum caller mime expected) s.reg s'.reg := by
  simp only [commitAsset, bind_eq_ok, attempt_eq_ok, getAsset_eq_ok, utcnow_eq_ok, putAsset_eq_ok,
    audit_eq_ok, pure_eq_ok, raiseIf_eq_ok, ne_eq, not_not, not_lt, not_exists, not_and] at h
  obtain ⟨_, _, ⟨hsize, rfl⟩, _, _, ⟨hchecksum, rfl⟩, _, _, ⟨-, rfl⟩, a, _, ⟨get, rfl⟩, _, _,
    ⟨hstate, rfl⟩, _, _, ⟨hreserved, rfl⟩, _, s1, henforce, _, _, ⟨rfl, rfl⟩, _, _, rfl, _,
    _, hacquire,
    _, _, rfl, rfl, rfl⟩ := h
  obtain rfl := enforceQuota_same henforce
  obtain ⟨p, b, rfl⟩ := acquireQuota_charges hacquire
  exact changes_of_move get (.commit hstate hsize hchecksum hreserved) records_of rfl

/-- A maintenance update replaces the asset that it was given. -/
theorem lifecycleUpdate_ok {state : AssetState} {now : Time} {reason : Text} {purge : Bool}
    (h : lifecycleUpdate a state now reason purge s = .ok a' s') :
    s.reg.assets.get a.assetId = some a ∧
      validateCleanupTransition a state purge = .ok () ∧
      a' = { a with
        state, updatedAt := now
        expiredAt := if state = .expired then some now else a.expiredAt
        payloadDeletedAt := if purge then some now else a.payloadDeletedAt } ∧
      s'.reg.assets = s.reg.assets.set a.assetId a' := by
  simp only [lifecycleUpdate, bind_eq_ok, getAsset_eq_ok, attempt_eq_ok, raiseIf_eq_ok,
    putAsset_eq_ok, audit_eq_ok, pure_eq_ok, ne_eq, not_not] at h
  obtain ⟨_, _, ⟨get, rfl⟩, _, _, ⟨rfl, rfl⟩, _, _, ⟨hallowed, rfl⟩, _, _, hrelease, _, _,
    rfl, _, _, rfl,
    rfl, rfl⟩ := h
  obtain ⟨p, b, rfl⟩ := releaseQuota_charges hrelease
  exact ⟨get, hallowed, rfl, rfl⟩

theorem lifecycleUpdate_changes {state : AssetState} {now : Time} {reason : Text} {purge : Bool}
    (h : lifecycleUpdate a state now reason purge s = .ok a' s') :
    Changes env s.clock (.lifecycleUpdate a state now reason purge) s.reg s'.reg := by
  simp only [lifecycleUpdate, bind_eq_ok, getAsset_eq_ok, attempt_eq_ok, raiseIf_eq_ok,
    putAsset_eq_ok, audit_eq_ok, pure_eq_ok, ne_eq, not_not] at h
  obtain ⟨_, _, ⟨get, rfl⟩, _, _, ⟨rfl, rfl⟩, _, _, ⟨hallowed, rfl⟩, _, _, hrelease, _, _,
    rfl, _, _, rfl,
    rfl, rfl⟩ := h
  obtain ⟨p, b, rfl⟩ := releaseQuota_charges hrelease
  obtain ⟨hallowed, hunpurged⟩ := validateCleanupTransition_eq_ok.mp hallowed
  rcases hallowed with ⟨rfl, hstate, rfl⟩ | ⟨rfl, hstate, hpurge⟩
  · exact changes_of_move get (.lapse hstate) records_of rfl
  · cases purge with
    | false =>
      exact changes_of_move get (.retire hstate hunpurged)
        records_of rfl
    | true =>
      have hdeleted := hpurge.resolve_left (by simp)
      exact changes_of_move get (.purge hdeleted hunpurged)
        records_of rfl

theorem setAssetTtl_changes {ttl : Int} (h : setAssetTtl env id ttl caller s = .ok a' s') :
    Changes env s.clock (.setAssetTtl id ttl caller) s.reg s'.reg := by
  simp only [setAssetTtl, bind_eq_ok, getAsset_eq_ok, attempt_eq_ok, raiseIf_eq_ok, utcnow_eq_ok,
    putAsset_eq_ok, audit_eq_ok, pure_eq_ok, ne_eq, not_and_or, not_or, not_not] at h
  obtain ⟨a, _, ⟨get, rfl⟩, _, _, ⟨hstate, rfl⟩, _, _, ⟨hcommitted, rfl⟩, _, _, ⟨rfl, rfl⟩,
    deadline, _,
    ⟨hdeadline, rfl⟩, _, s1, hadmit, _, _, rfl, _, _, rfl, rfl, rfl⟩ := h
  have hcharged : ∃ p b, s1 =
      { s.tick with reg := { s.reg with partitionQuotas := p, bucketQuotas := b } } := by
    unfold admitRestore at hadmit
    split at hadmit
    · obtain ⟨_, _, henforce, hacquire⟩ := bind_eq_ok.mp hadmit
      obtain rfl := enforceQuota_same henforce
      exact acquireQuota_charges hacquire
    · obtain ⟨-, rfl⟩ := pure_eq_ok.mp hadmit
      exact ⟨_, _, rfl⟩
  obtain ⟨p, b, rfl⟩ := hcharged
  refine changes_of_move (p := p) (b := b) get (.restore hstate hcommitted hdeadline) ?_ rfl
  exact ⟨rfl, rfl, by simp [auditEvent, mapping], by simp [auditEvent, mapping]⟩

/-! #### Aliases -/

theorem getBinding_eq_key {space name : Text} {b : AliasBinding} :
    getBinding space name s = .ok b s' ↔
      ∃ key, aliasKey space name = .ok key ∧ s.reg.aliases.get key = some b ∧ s = s' := by
  rw [getBinding_eq_ok]
  simp only [aliasKey, except_bind_eq_ok]
  constructor
  · rintro ⟨normSpace, normAlias, key, hspace, halias, hkey, hget, rfl⟩
    exact ⟨key, ⟨normSpace, hspace, normAlias, halias, hkey⟩, hget, rfl⟩
  · rintro ⟨key, ⟨normSpace, hspace, normAlias, halias, hkey⟩, hget, rfl⟩
    exact ⟨normSpace, normAlias, key, hspace, halias, hkey, hget, rfl⟩

@[simp] theorem raiseNaming_eq_ok {c : Prop} [Decidable c] {b : AliasBinding} {cls : ErrorClass}
    {message : String} : raiseNaming c b cls message = .ok u ↔ ¬c := by
  unfold raiseNaming
  split
  · simp_all
  · simp_all

theorem markForGcIfOrphaned_changes {clock : Nat → Time} {op : Op}
    (later : ∀ t, Reads s.clock t → Reads clock t)
    (detaches : ∃ space name caller,
      op = .detachAlias space name caller ∨ op = .detachMutableAlias space name caller)
    (h : markForGcIfOrphaned id caller s = .ok u s') : Changes env clock op s.reg s'.reg := by
  simp only [markForGcIfOrphaned, bind_eq_ok, getAsset_eq_ok] at h
  obtain ⟨a, _, ⟨get, rfl⟩, h⟩ := h
  split at h
  · obtain ⟨-, rfl⟩ := pure_eq_ok.mp h
    exact .refl
  · rename_i hcond
    simp only [not_or, ne_eq, not_not] at hcond
    obtain ⟨hnameless, hexpired, hdeleted⟩ := hcond
    simp only [bind_eq_ok, utcnow_eq_ok, putAsset_eq_ok, audit_eq_ok] at h
    obtain ⟨_, _, ⟨rfl, rfl⟩, _, _, ⟨rfl, rfl⟩, _, _, rfl, _, _, hrelease, rfl⟩ := h
    obtain ⟨p, b, rfl⟩ := releaseQuota_charges hrelease
    have hbefore : a.state = .pending ∨ a.state = .available := by
      cases hstate : a.state <;> simp_all
    exact changes_of_move get
      (.orphan (t := s.clock 1) detaches hnameless hbefore (later _ ⟨1, rfl⟩)) records_of rfl

theorem buryName_eq_ok {key : Text} (h : buryName key s = .ok u s') :
    ∃ now, Reads s.clock now ∧ Later s s' ∧
      s'.reg = { s.reg with tombstones := s.reg.buried key now } := by
  simp only [buryName, bind_eq_ok, tables_eq_ok] at h
  obtain ⟨_, _, ⟨rfl, rfl⟩, h⟩ := h
  unfold Registry.buried
  split at h
  · rename_i hgrace
    simp only [bind_eq_ok, utcnow_eq_ok, attempt_eq_ok, updateTables_eq_ok] at h
    obtain ⟨_, _, ⟨rfl, rfl⟩, _, _, ⟨-, rfl⟩, rfl⟩ := h
    have hlater : Later s s.tick := Frame.tick s
    exact ⟨s.clock 0, ⟨0, rfl⟩, hlater, by simp [hgrace]⟩
  · rename_i hgrace
    obtain ⟨-, rfl⟩ := pure_eq_ok.mp h
    exact ⟨s.clock 0, ⟨0, rfl⟩, Closed.refl s, by simp [hgrace]⟩

/-- A detach drops the binding and buries its name, and then looks after the asset. -/
theorem detachAlias_steps {space name : Text} (h : detachAlias space name caller s = .ok u s') :
    ∃ found key b now r1, aliasKey space name = .ok found ∧ s.reg.aliases.get found = some b ∧
      b.qualifiedAlias = .ok key ∧ Reads s.clock now ∧ r1.aliases = s.reg.aliases.erase key ∧
      r1.tombstones = s.reg.buried key now ∧ r1.aliasGrace = s.reg.aliasGrace ∧
      Change env s.clock s.reg (.detachAlias space name caller) r1 ∧
      Changes env s.clock (.detachAlias space name caller) r1 s'.reg := by
  simp only [detachAlias, removeAliasFromAsset, bind_eq_ok, getBinding_eq_key, attempt_eq_ok,
    raiseNaming_eq_ok, someOr_eq_ok, updateTables_eq_ok, getAsset_eq_ok, utcnow_eq_ok,
      putAsset_eq_ok,
    audit_eq_ok] at h
  obtain ⟨b, _, ⟨found, hfound, hget, rfl⟩, _, _, ⟨himmutable, rfl⟩, key, _, ⟨hown, rfl⟩, id, _,
    ⟨hbound, rfl⟩, _, _, rfl, _, _, ⟨a, _, ⟨hasset, rfl⟩, _, _, ⟨rfl, rfl⟩, rfl⟩, _, s1,
    hbury, _, _, rfl,
    hmark⟩ := h
  obtain ⟨now, hreads, hlater, hreg⟩ := buryName_eq_ok hbury
  have hclock : ∀ t, Reads s1.tick.clock t → Reads s.clock t := by
    rintro t ⟨n, hn⟩
    obtain ⟨k, hk⟩ := hlater.reads ⟨n + 1, hn⟩
    exact ⟨k + 1, hk⟩
  obtain ⟨n, hn⟩ := hreads
  have hmark' : Changes env s.clock (.detachAlias space name caller) _ s'.reg :=
    markForGcIfOrphaned_changes (by exact hclock) ⟨space, name, caller, .inl rfl⟩ hmark
  simp only [hreg] at hmark'
  refine ⟨found, key, b, now, _, hfound, hget, hown, ⟨n + 1, hn⟩, ?_, ?_, ?_,
    .detach hfound hget hown (by simpa using himmutable) hbound hasset ⟨n + 1, hn⟩, hmark'⟩
  · rfl
  · rfl
  · rfl

theorem detachAlias_changes {space name : Text} (h : detachAlias space name caller s = .ok u s') :
    Changes env s.clock (.detachAlias space name caller) s.reg s'.reg := by
  obtain ⟨_, _, _, _, r1, -, -, -, -, -, -, -, hdetach, hmark⟩ := detachAlias_steps h
  exact .head hdetach hmark

theorem detachMutableAlias_changes {space name : Text} {b : AliasBinding}
    (h : detachMutableAlias space name caller s = .ok b s') :
    Changes env s.clock (.detachMutableAlias space name caller) s.reg s'.reg := by
  simp only [detachMutableAlias, removeAliasFromAsset, bind_eq_ok, getBinding_eq_key, attempt_eq_ok,
    raiseNaming_eq_ok, someOr_eq_ok, getAsset_eq_ok, utcnow_eq_ok, putAsset_eq_ok, putBinding_eq_ok,
    audit_eq_ok, pure_eq_ok] at h
  obtain ⟨b, _, ⟨found, hfound, hget, rfl⟩, _, _, ⟨hmutable, rfl⟩, key, _, ⟨hown, rfl⟩, id, _,
    ⟨hbound, rfl⟩, _, _, ⟨a, _, ⟨hasset, rfl⟩, _, _, ⟨rfl, rfl⟩, rfl⟩, _, _, ⟨rfl, rfl⟩, _,
    _, rfl, _, _,
    rfl, _, _, hmark, rfl, rfl⟩ := h
  refine ReflTransGen.trans ?_ (markForGcIfOrphaned_changes (fun t ht => ?_)
    ⟨space, name, caller, .inr rfl⟩ hmark)
  · exact .single (.unbind hfound hget hown (by simpa using hmutable) hbound hasset)
  · obtain ⟨n, hn⟩ := ht
    exact ⟨n + 3, hn⟩

theorem rebindAlias_changes {space name newId : Text} {b : AliasBinding}
    (h : rebindAlias space name newId caller s = .ok b s') :
    Changes env s.clock (.rebindAlias space name newId caller) s.reg s'.reg := by
  simp only [rebindAlias, addAliasToAsset, bind_eq_ok, getBinding_eq_key, attempt_eq_ok,
    raiseNaming_eq_ok, raiseIf_eq_ok, getAsset_eq_ok, utcnow_eq_ok, putAsset_eq_ok,
      putBinding_eq_ok,
    audit_eq_ok, pure_eq_ok, ne_eq, not_not] at h
  obtain ⟨b, _, ⟨found, hfound, hget, rfl⟩, _, _, ⟨hmutable, rfl⟩, _, _, ⟨hunbound, rfl⟩, a, _,
    ⟨hasset, rfl⟩, _, _, ⟨hspace, rfl⟩, partition, _, ⟨hpartition, rfl⟩, _, _, ⟨rfl, rfl⟩, _, _,
    ⟨hstate, rfl⟩, key, _, ⟨hown, rfl⟩, _, _, ⟨rfl, rfl⟩, _, _, rfl, _, _,
    ⟨a1, _, ⟨hasset1, rfl⟩, _, _, ⟨rfl, rfl⟩, rfl⟩, _, _, rfl, rfl, rfl⟩ := h
  obtain rfl : a = a1 := Option.some.inj (hasset.symm.trans hasset1)
  exact .single (.rebind hfound hget hown
    (by simpa using hmutable) hunbound hasset hspace hpartition
    hstate)

theorem attachAlias_changes {name : Text} {mutable : Bool} {b : AliasBinding}
    (h : attachAlias id name mutable caller s = .ok b s') :
    Changes env s.clock (.attachAlias id name mutable caller) s.reg s'.reg := by
  simp only [attachAlias, addAliasToAsset, bind_eq_ok, attempt_eq_ok, raiseIf_eq_ok, getAsset_eq_ok,
    utcnow_eq_ok, putAsset_eq_ok, putBinding_eq_ok, audit_eq_ok, pure_eq_ok] at h
  obtain ⟨a, _, ⟨get, rfl⟩, _, _, ⟨hlive, rfl⟩, space, _, ⟨hspace, rfl⟩, path, _,
    ⟨hpath, rfl⟩, _, s1, havail, key, _, ⟨hkey, rfl⟩, _, _, ⟨rfl, rfl⟩, _, _, rfl, _, _,
    ⟨a1, _, ⟨get1, rfl⟩, _, _, ⟨rfl, rfl⟩, rfl⟩, _, _, rfl, rfl, rfl⟩ := h
  have hsweeps := requireAliasNameAvailable_sweeps.ok havail
  obtain ⟨key', hkey', hfree⟩ := requireAliasNameAvailable_free havail
  obtain rfl : key = key' := by simpa [hkey] using hkey'
  have get1 : s1.reg.assets.get id = some a1 := get1
  obtain rfl : a = a1 := by
    rw [hsweeps.reg] at get1
    exact Option.some.inj (get.symm.trans get1)
  -- the check drops elapsed tombstones; then both sides of the index are updated
  refine ReflTransGen.trans (.single (.forget hsweeps.elapsed)) ?_
  rw [← hsweeps.reg]
  exact .single (.attach get1 hlive
    ⟨hspace, hpath, hkey, rfl, rfl, rfl, hsweeps.later.reads ⟨0, rfl⟩⟩ hfree)

/-! #### Reservations -/

/-- What `bindNames` binds for a name. -/
def BindsName (space pid id owner : Text) (now : Time) (spec : Text × Bool)
    (kb : Text × AliasBinding) : Prop :=
  ∃ path, aliasUnderPartition pid spec.1 = .ok path ∧ qualifiedAlias space path = .ok kb.1 ∧
    kb.2 = newBinding space path id owner spec.2 now

theorem bindNames_eq_ok {space pid owner : Text} {now : Time} :
    ∀ {specs : List (Text × Bool)} {u : Unit}
    {s s' : Session}, bindNames space pid id owner now specs s = .ok u s' → ∃ new events,
      s'.reg =
        { s.reg with
          aliases := bindAll s.reg.aliases new, auditEvents := s.reg.auditEvents ++ events } ∧
      List.Forall₂ (BindsName space pid id owner now) specs new ∧
      List.Forall₂ (fun kb e => ∃ caller ts,
        e = bindEvent .aliasCreate kb.1 id kb.2.mutable caller ts) new events
  | [], _, s, s', h => by
    obtain ⟨-, rfl⟩ := pure_eq_ok.mp h
    exact ⟨[], [], by simp [bindAll], .nil, .nil⟩
  | (name, mutable) :: rest, _, s, s', h => by
    simp only [bindNames, bind_eq_ok, attempt_eq_ok, putBinding_eq_ok, audit_eq_ok] at h
    obtain ⟨path, _, ⟨hpath, rfl⟩, key, _, ⟨hkey, rfl⟩, _, _, rfl, _, _, rfl, hrest⟩ := h
    obtain ⟨new, events, hreg, hnew, hevents⟩ := bindNames_eq_ok hrest
    refine ⟨(key, newBinding space path id owner mutable now) :: new, _ :: events, ?_,
      .cons ⟨path, hpath, hkey, rfl⟩ hnew, .cons ⟨owner, s.clock 0, rfl⟩ hevents⟩
    simp only [hreg, List.append_assoc, List.singleton_append]
    rfl

theorem mapM_scopedKey {space pid owner : Text} {now : Time} {specs : List (Text × Bool)}
    {new : List (Text × AliasBinding)}
    (h : List.Forall₂ (BindsName space pid id owner now) specs new) :
    (specs.map Prod.fst).mapM (scopedKey space pid) = .ok (new.map Prod.fst) := by
  induction h with
  | nil => rfl
  | cons hb _ ih =>
    obtain ⟨path, hpath, hkey, -⟩ := hb
    simp [scopedKey, hpath, hkey, ih]

theorem Forall₂.exists_left {α β : Type} {R : α → β → Prop} {l : List α} {l' : List β}
    (h : List.Forall₂ R l l') : ∀ b ∈ l', ∃ a ∈ l, R a b := by
  induction h with
  | nil => simp
  | cons hab _ ih =>
    intro b hb
    rcases List.mem_cons.mp hb with rfl | hb
    · exact ⟨_, List.mem_cons_self, hab⟩
    · obtain ⟨a, ha, hR⟩ := ih b hb
      exact ⟨a, List.mem_cons_of_mem _ ha, hR⟩

theorem normalizeAliasSpecs_ne_nil {specs : AliasSpecs} {d : Dict Text Bool}
    (h : normalizeAliasSpecs specs = .ok d) (hne : specs ≠ []) : d.keys ≠ [] := by
  obtain ⟨init, last, rfl⟩ := List.eq_nil_or_concat specs |>.resolve_left hne
  simp only [normalizeAliasSpecs, List.concat_eq_append, List.foldlM_append, List.foldlM_cons,
    List.foldlM_nil, except_bind_eq_ok, except_pure_eq_ok] at h
  obtain ⟨before, -, _, ⟨name, -, rfl⟩, rfl⟩ := h
  have hmem : name ∈ (before.set name last.2).keys := by
    rw [Dict.mem_keys, Dict.get_set_self]
    rfl
  exact List.ne_nil_of_mem hmem

theorem reserveAsset_changes {newId : Text} {req : ReserveRequest}
    (fresh : s.reg.assets.get newId = none) (h : reserveAsset env newId req s = .ok a s') :
    Changes env s.clock (.reserveAsset newId req) s.reg s'.reg := by
  simp only [reserveAsset, bind_eq_ok, attempt_eq_ok, utcnow_eq_ok, putAsset_eq_ok, pure_eq_ok] at h
  obtain ⟨space, _, ⟨hspace, rfl⟩, pid, _, ⟨hpid, rfl⟩, specs, _, ⟨hspecs, rfl⟩, _, s1,
    hfree, _, s2,
    hadmit, _, _, ⟨rfl, rfl⟩, keys, _, ⟨hkeys, rfl⟩, storageKey, _, ⟨hstorage, rfl⟩, expiresAt, _,
    ⟨hexpiry, rfl⟩, _, _, rfl, _, s3, hbind, _, s4, haudit, rfl, rfl⟩ := h
  have hsweeps := (requireNamesAvailable_sweeps _).ok hfree
  have hfree := requireNamesAvailable_free hfree
  have hreg2 : s2.reg = s1.reg := (Within.admitReservation (R := Same fun r => r) _).ok hadmit
  have hlater : Later s s2 :=
    Closed.trans hsweeps.later ((Within.admitReservation (R := Later) _).ok hadmit)
  obtain ⟨new, events, hreg3, hnew, hevents⟩ := bindNames_eq_ok hbind
  have hkeys' := mapM_scopedKey hnew
  rw [List.map_map, Function.comp_def, List.map_id', hkeys] at hkeys'
  -- after the checks the asset and its bindings are stored in one go, and then the size is audited
  refine ReflTransGen.trans (.single (.forget hsweeps.elapsed)) ?_
  rw [← hsweeps.reg]
  have haudit' : Changes env s.clock (.reserveAsset newId req) s3.reg s4.reg := by
    cases hres : req.reservedBytes with
    | none =>
      rw [hres] at haudit
      obtain ⟨-, rfl⟩ := pure_eq_ok.mp haudit
      exact .refl
    | some n =>
      rw [hres] at haudit
      obtain rfl := audit_eq_ok.mp haudit
      exact .single (.log trivial)
  refine ReflTransGen.trans ?_ haudit'
  rw [hreg3]
  simp only [Session.put, Session.tick_reg, hreg2]
  have hnow : Reads s.clock (s2.clock 0) := hlater.reads ⟨0, rfl⟩
  have fresh1 : s1.reg.assets.get newId = none := by
    rw [hsweeps.reg]
    exact fresh
  refine .single (.reserve fresh1
    ⟨rfl, hspace, hpid, hstorage, rfl, rfl, rfl, rfl, ⟨_, hnow, hexpiry⟩, rfl,
      rfl⟩ ?_ ?_ ?_ ?_ hevents)
  · simp [Except.ok.inj hkeys']
  · intro hne hnil
    subst hnil
    have := normalizeAliasSpecs_ne_nil hspecs hne
    simp [List.forall₂_nil_right_iff] at hnew
    exact this hnew
  · intro kb hkb
    obtain ⟨spec, -, path, hpath, hkey, hb⟩ := Forall₂.exists_left hnew kb hkb
    have hbucket : normalizeSpace space = .ok space :=
      normalizeBucket_of_mem (normalizeBucket_eq_ok.mp hspace).2
    rw [hb]
    exact ⟨spec.1, hbucket, hpath, hkey, rfl, rfl, rfl, hnow⟩
  · intro kb hkb
    obtain ⟨spec, hspec, path, hpath, hkey, hb⟩ := Forall₂.exists_left hnew kb hkb
    obtain ⟨name, hname, rfl⟩ := List.mem_map.mp hspec
    obtain ⟨key, hkey', hfree'⟩ := hfree name hname
    simp only [scopedKey, hpath, except_bind_eq_ok, Except.ok.injEq, exists_eq_left', hkey] at hkey'
    exact hkey' ▸ hfree'

/-! #### Records and limits -/

theorem updateAnnotations_changes {patch : Mapping} {overwrite : Bool} {op : Op}
    (h : updateAnnotations id patch caller overwrite s = .ok a' s') :
    Changes env s.clock op s.reg s'.reg := by
  simp only [updateAnnotations, bind_eq_ok, getAsset_eq_ok, attempt_eq_ok, utcnow_eq_ok,
    putAsset_eq_ok, updateTables_eq_ok, pure_eq_ok] at h
  obtain ⟨a, _, ⟨get, rfl⟩, _, _, ⟨-, rfl⟩, _, _, ⟨rfl, rfl⟩, _, _, rfl, _, _, ⟨rfl, rfl⟩, _,
    _, rfl, rfl,
    rfl⟩ := h
  exact ReflTransGen.tail (.single (.note get)) (.log trivial)

theorem setEvictionPolicy_changes {policy : EvictionPolicy} {op : Op}
    (h : setEvictionPolicy id policy caller s = .ok a' s') :
    Changes env s.clock op s.reg s'.reg := by
  simp only [setEvictionPolicy, bind_eq_ok, getAsset_eq_ok, attempt_eq_ok, utcnow_eq_ok,
    putAsset_eq_ok, audit_eq_ok, pure_eq_ok] at h
  obtain ⟨a, _, ⟨get, rfl⟩, _, _, ⟨-, rfl⟩, _, _, ⟨rfl, rfl⟩, _, _, rfl, _, _, rfl, rfl, rfl⟩ := h
  exact ReflTransGen.tail (.single (.note get)) (.log trivial)

theorem recordRead_changes {op : Op} (h : recordRead id s = .ok u s') :
    Changes env s.clock op s.reg s'.reg := by
  simp only [recordRead, bind_eq_ok, getAsset_eq_ok] at h
  obtain ⟨a, _, ⟨get, rfl⟩, h⟩ := h
  split at h
  · simp only [bind_eq_ok, utcnow_eq_ok, putAsset_eq_ok] at h
    obtain ⟨_, _, ⟨rfl, rfl⟩, rfl⟩ := h
    exact .single (.note get)
  · obtain ⟨-, rfl⟩ := pure_eq_ok.mp h
    exact .refl

theorem setPartitionQuota_changes {space pid : Text} {bytes count : Option Int}
    {sweep : Option Bool}
    {q : PartitionQuota} {op : Op}
    (h : setPartitionQuota space pid bytes count sweep caller s = .ok q s') :
    Changes env s.clock op s.reg s'.reg := by
  simp only [setPartitionQuota, partitionQuota, putPartitionQuota, bind_eq_ok, attempt_eq_ok,
    tables_eq_ok, pure_eq_ok, updateTables_eq_ok, audit_eq_ok] at h
  obtain ⟨_, _, ⟨-, rfl⟩, _, _, ⟨-, rfl⟩, _, _,
    ⟨_, _, ⟨-, rfl⟩, _, _, ⟨-, rfl⟩, _, _, ⟨rfl, rfl⟩, -, rfl⟩,
    _, _, rfl, _, _, rfl, -, rfl⟩ := h
  exact ReflTransGen.tail (.single .charge) (.log trivial)

theorem setBucketQuota_changes {space : Text} {bytes : Option Int} {warn hard : Rat}
    {q : BucketQuota}
    {op : Op} (h : setBucketQuota space bytes warn hard s = .ok q s') :
    Changes env s.clock op s.reg s'.reg := by
  simp only [setBucketQuota, bucketQuota, putBucketQuota, bind_eq_ok, attempt_eq_ok, tables_eq_ok,
    pure_eq_ok, updateTables_eq_ok] at h
  obtain ⟨_, _, ⟨-, rfl⟩, _, _, ⟨_, _, ⟨-, rfl⟩, _, _, ⟨rfl, rfl⟩, -, rfl⟩, _, _, rfl, -, rfl⟩ := h
  exact .single .charge

theorem Changes.of_same {op : Op} {α : Type} {m : RegM α} {v : α} (hm : Keeps (fun r => r) m)
    (h : m s = .ok v s') : Changes env s.clock op s.reg s'.reg := by
  have : s'.reg = s.reg := hm.ok h
  rw [this]
  exact .refl

/-- What a call does before it wraps up its reply. -/
theorem replied {α β : Type} {m : RegM α} {f : α → β} {b : β}
    (h : (m >>= fun x => pure (f x)) s = .ok b s') : ∃ x, m s = .ok x s' := by
  obtain ⟨x, _, hm, hret⟩ := bind_eq_ok.mp h
  obtain ⟨-, rfl⟩ := pure_eq_ok.mp hret
  exact ⟨x, hm⟩

/-- A call that returns is a sequence of changes. -/
theorem Op.changes {op : Op} {reply : Reply} (fresh : op.Fresh s.reg)
    (h : op.run env s = .ok reply s') : Changes env s.clock op s.reg s'.reg := by
  cases op with
  | recordCapabilityIssue =>
    obtain ⟨_, h⟩ := replied h
    obtain rfl := audit_eq_ok.mp h
    exact .single (.log trivial)
  | reserveAsset newId req =>
    obtain ⟨_, h⟩ := replied h
    exact reserveAsset_changes fresh h
  | attachAlias =>
    obtain ⟨_, h⟩ := replied h
    exact attachAlias_changes h
  | commitAsset =>
    obtain ⟨_, h⟩ := replied h
    exact commitAsset_changes h
  | updateAnnotations =>
    obtain ⟨_, h⟩ := replied h
    exact updateAnnotations_changes h
  | detachAlias =>
    obtain ⟨_, h⟩ := replied h
    exact detachAlias_changes h
  | detachMutableAlias =>
    obtain ⟨_, h⟩ := replied h
    exact detachMutableAlias_changes h
  | rebindAlias =>
    obtain ⟨_, h⟩ := replied h
    exact rebindAlias_changes h
  | expireAsset =>
    obtain ⟨_, h⟩ := replied h
    exact expireAsset_changes h
  | deleteAsset =>
    obtain ⟨_, h⟩ := replied h
    exact deleteAsset_changes h
  | setEvictionPolicy =>
    obtain ⟨_, h⟩ := replied h
    exact setEvictionPolicy_changes h
  | setPartitionQuota =>
    obtain ⟨_, h⟩ := replied h
    exact setPartitionQuota_changes h
  | setBucketQuota =>
    obtain ⟨_, h⟩ := replied h
    exact setBucketQuota_changes h
  | recordRead =>
    obtain ⟨_, h⟩ := replied h
    exact recordRead_changes h
  | lifecycleUpdate =>
    obtain ⟨_, h⟩ := replied h
    exact lifecycleUpdate_changes h
  | setAssetTtl =>
    obtain ⟨_, h⟩ := replied h
    exact setAssetTtl_changes h
  | resolveAlias => exact .of_same (Within.bind Within.resolveAlias fun _ => Within.pure) h
  | getPartitionQuota => exact .of_same (Within.bind Within.partitionQuota fun _ => Within.pure) h
  | getBucketQuota => exact .of_same (Within.bind Within.bucketQuota fun _ => Within.pure) h
  | reservedUploadBytes =>
    exact .of_same (Within.bind (Within.bind Within.tables fun _ =>
      Within.bind Within.attempt fun _ =>
      Within.pure) fun _ => Within.pure) h
  | listAssets =>
    exact .of_same (Within.bind (Within.bind Within.tables fun _ => Within.pure) fun _ =>
      Within.pure) h
  | recentAudit =>
    exact .of_same (Within.bind (Within.bind Within.attempt fun _ =>
      Within.bind Within.tables fun _ =>
      Within.pure) fun _ => Within.pure) h
  | getAsset => exact .of_same (Within.bind Within.getAsset fun _ => Within.pure) h
  | queryAssets =>
    exact .of_same (Within.bind (Within.bind Within.attempt fun _ =>
      Within.bind Within.tables fun _ =>
      Within.pure) fun _ => Within.pure) h
  | auditEvents => exact .of_same (Within.bind Within.tables fun _ => Within.pure) h

end Calls

end AssetStore
