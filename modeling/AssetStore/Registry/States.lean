import AssetStore.Registry.Index

/-! The life of an asset. A change of the tables touches an asset by a note on its record, by its
alias set or by one lifecycle transition; what each state promises of the other fields, and what is
written once, follows from that. -/

namespace AssetStore

open Lib Relation

variable {env : Env} {clock : Nat → Time} {op : Op} {id : Text} {a a' : Asset} {r r' : Registry}

/-! ### What a change does to one asset -/

/-- What one change does to a stored asset. -/
inductive Touch (env : Env) (clock : Nat → Time) (id : Text) (op : Op) (a : Asset) : Asset → Prop
  | same : Touch env clock id op a a
  | note {annotations : Mapping} {evictionPolicy : EvictionPolicy} {lastReadAt : Option Time}
      {readCount : Int} {updatedAt : Time} :
      Touch env clock id op a { a with
        annotations, evictionPolicy, lastReadAt, readCount, updatedAt }
  | enlist {key : Text} {updatedAt : Time} :
      Touch env clock id op a { a with aliases := insert key a.aliases, updatedAt }
  | delist {key : Text} {updatedAt : Time} (detaches : ∃ space name caller,
        op = .detachAlias space name caller ∨ op = .detachMutableAlias space name caller) :
      Touch env clock id op a { a with aliases := a.aliases.erase key, updatedAt }
  | move {action : AuditAction} {a' : Asset} (step : Transition env clock id a op action a') :
      Touch env clock id op a a'

/-- A stored asset stays stored. -/
theorem Change.touch (h : Change env clock r op r') (get : r.assets.get id = some a) :
    ∃ a', r'.assets.get id = some a' ∧ Touch env clock id op a a' := by
  -- an asset is stored under one id, so the others are as they were
  have put : ∀ {i : Text} {c c' : Asset}, r.assets.get i = some c → Touch env clock i op c c' →
      ∃ a', (r.assets.set i c').get id = some a' ∧ Touch env clock id op a a' := by
    intro i c c' hi htouch
    by_cases heq : id = i
    · subst heq
      obtain rfl : a = c := Option.some.inj (get.symm.trans hi)
      exact ⟨c', Dict.get_set_self _ _ _, htouch⟩
    · exact ⟨a, by rw [Dict.get_set_ne _ _ heq, get], .same⟩
  cases h with
  | forget => exact ⟨a, get, .same⟩
  | charge => exact ⟨a, get, .same⟩
  | log => exact ⟨a, get, .same⟩
  | note hget => exact put hget .note
  | reserve fresh =>
    refine ⟨a, ?_, .same⟩
    exact (Dict.get_set_ne _ _ (by rintro rfl; rw [fresh] at get; cases get)).trans get
  | attach hget => exact put hget .enlist
  | detach _ _ _ _ _ hget _
  | drop _ _ _ _ _ hget _ => exact put hget (.delist ⟨_, _, _, .inl rfl⟩)
  | unbind _ _ _ _ _ hget => exact put hget (.delist ⟨_, _, _, .inr rfl⟩)
  | rebind _ _ _ _ _ hget _ _ _ => exact put hget .enlist
  | move hget step _ => exact put hget (.move step)

/-- An asset that is stored after a change was stored before it, or was reserved by it. -/
theorem Change.origin (h : Change env clock r op r') (get : r'.assets.get id = some a') :
    (∃ a, r.assets.get id = some a ∧ Touch env clock id op a a') ∨
      ∃ req, op = .reserveAsset id req ∧ r.assets.get id = none ∧ NewAsset env clock id req a' ∧
        (req.aliases ≠ [] → a'.aliases ≠ ∅) := by
  cases hold : r.assets.get id with
  | some a =>
    obtain ⟨c, hc, htouch⟩ := h.touch hold
    obtain rfl : a' = c := Option.some.inj (get.symm.trans hc)
    exact .inl ⟨a, rfl, htouch⟩
  | none =>
    -- only a reservation stores a new id
    have absent : ∀ {i : Text} {c c' : Asset}, r.assets.get i = some c →
        (r.assets.set i c').get id = some a' → False := by
      intro i c c' hi hset
      rw [Dict.get_set_ne _ _ (by rintro rfl; rw [hold] at hi; cases hi), hold] at hset
      cases hset
    cases h with
    | forget => cases hold.symm.trans get
    | charge => cases hold.symm.trans get
    | log => cases hold.symm.trans get
    | note hget => exact (absent hget get).elim
    | @reserve newId req a new events _ asset aliases named =>
      have heq : id = newId := by
        by_contra hne
        cases hold.symm.trans ((Dict.get_set_ne _ _ hne).symm.trans get)
      subst heq
      obtain rfl : a = a' := Option.some.inj ((Dict.get_set_self _ _ _).symm.trans get)
      refine .inr ⟨req, rfl, rfl, asset, fun hne hempty => ?_⟩
      rw [aliases, List.toFinset_eq_empty_iff, List.map_eq_nil_iff] at hempty
      exact named hne hempty
    | attach hget => exact (absent hget get).elim
    | detach _ _ _ _ _ hget _
    | drop _ _ _ _ _ hget _ => exact (absent hget get).elim
    | unbind _ _ _ _ _ hget => exact (absent hget get).elim
    | rebind _ _ _ _ _ hget _ _ _ => exact (absent hget get).elim
    | move hget _ _ => exact (absent hget get).elim

/-! ### The states -/

/-- What the state of an asset says about its other fields. -/
structure Shaped (a : Asset) : Prop where
  pending : a.state = .pending →
    a.sizeBytes = none ∧ a.checksum = none ∧ a.expiredAt = none ∧ a.payloadDeletedAt = none
  available : a.state = .available →
    a.sizeBytes ≠ none ∧ a.checksum ≠ none ∧ a.reservedBytes = none ∧ a.expiredAt = none ∧
      a.payloadDeletedAt = none
  expired : a.state = .expired → a.expiredAt ≠ none
  purged : a.payloadDeletedAt ≠ none → a.state = .deleted
  sized : a.sizeBytes ≠ none → a.reservedBytes = none
  nonempty : ∀ c, a.checksum = some c → c ≠ []
  deadline : a.space = "tmp".toList ∨ a.space = "results".toList → a.expiresAt ≠ none

theorem expiryFor_ne_none {space : Text} {ttl : Option Int} {now : Time} {deadline : Option Time}
    (h : expiryFor env space ttl now = .ok deadline)
    (bounded : space = "tmp".toList ∨ space = "results".toList) : deadline ≠ none := by
  have hsome : ∃ n, (if space = "tmp".toList then some (ttl.getD 86400)
      else if space = "results".toList then some (ttl.getD env.resultsMaxTtl) else ttl) =
        some n := by
    rcases bounded with rfl | rfl
    · exact ⟨_, rfl⟩
    · exact ⟨_, rfl⟩
  obtain ⟨n, hn⟩ := hsome
  simp only [expiryFor, hn, except_bind_eq_ok, except_pure_eq_ok] at h
  obtain ⟨_, -, _, -, _, -, rfl⟩ := h
  simp

theorem NewAsset.shaped {req : ReserveRequest} (h : NewAsset env clock id req a) : Shaped a where
  pending _ := ⟨h.sizeBytes, h.checksum, h.expiredAt, h.payloadDeletedAt⟩
  available hs := by cases h.state.symm.trans hs
  expired hs := by cases h.state.symm.trans hs
  purged hp := (hp h.payloadDeletedAt).elim
  sized hs := (hs h.sizeBytes).elim
  nonempty c hc := by cases h.checksum.symm.trans hc
  deadline hb := by
    obtain ⟨now, -, hexpiry⟩ := h.expiresAt
    exact expiryFor_ne_none hexpiry hb

theorem Transition.shaped {action : AuditAction} (h : Transition env clock id a op action a')
    (ha : Shaped a) : Shaped a' := by
  have unpurged : a.state ≠ .deleted → a.payloadDeletedAt = none := fun hne => by
    by_contra hp
    exact hne (ha.purged hp)
  cases h with
  | commit before _ nonempty _ =>
    obtain ⟨-, -, hexpired, hpurged⟩ := ha.pending before
    exact ⟨by
      simp [committed], fun _ => ⟨by simp [committed], by simp [committed], rfl, hexpired, hpurged⟩,
      by simp [committed], fun hp => (hp hpurged).elim, fun _ => rfl,
      fun c hc => Option.some.inj hc ▸ nonempty, ha.deadline⟩
  | expire before _ =>
    exact ⟨by simp, by simp, by simp, fun hp => (hp (unpurged (by simp [before]))).elim, ha.sized,
      ha.nonempty, ha.deadline⟩
  | orphan _ _ before _ =>
    have hne : a.state ≠ .deleted := by rcases before with h | h <;> simp [h]
    exact ⟨by simp, by simp, by simp, fun hp => (hp (unpurged hne)).elim, ha.sized, ha.nonempty,
      ha.deadline⟩
  | delete => exact ⟨by simp, by simp, by simp, fun _ => rfl, ha.sized, ha.nonempty, ha.deadline⟩
  | lapse before =>
    exact ⟨by simp, by simp, by simp, fun hp => (hp (unpurged (by simp [before]))).elim, ha.sized,
      ha.nonempty, ha.deadline⟩
  | retire => exact ⟨by simp, by simp, by simp, fun _ => rfl, ha.sized, ha.nonempty, ha.deadline⟩
  | purge => exact ⟨by simp, by simp, by simp, fun _ => rfl, ha.sized, ha.nonempty, ha.deadline⟩
  | restore before committed expiry =>
    have hne : a.state ≠ .deleted := by rcases before with h | h <;> simp [h]
    exact ⟨by simp, fun _ => ⟨committed.1, committed.2, ha.sized committed.1, rfl, unpurged hne⟩,
      by simp, fun hp => (hp (unpurged hne)).elim, ha.sized, ha.nonempty, expiryFor_ne_none expiry⟩

theorem Touch.shaped (h : Touch env clock id op a a') (ha : Shaped a) : Shaped a' := by
  cases h with
  | same => exact ha
  | note =>
    exact ⟨ha.pending, ha.available, ha.expired, ha.purged, ha.sized, ha.nonempty, ha.deadline⟩
  | enlist => exact ⟨ha.pending, ha.available, ha.expired,
      ha.purged, ha.sized, ha.nonempty, ha.deadline⟩
  | delist =>
    exact ⟨ha.pending, ha.available, ha.expired, ha.purged, ha.sized, ha.nonempty, ha.deadline⟩
  | move step => exact step.shaped ha

/-! ### The steps -/

/-- The state changes of an asset. -/
def AssetState.next : AssetState → List AssetState
  | .pending => [.available, .expired, .deleted]
  | .available => [.expired, .deleted]
  | .expired => [.available, .deleted]
  | .deleted => []

/-- What a call may do to a stored asset. -/
structure Evolves (a a' : Asset) : Prop where
  assetId : a'.assetId = a.assetId
  space : a'.space = a.space
  partitionId : a'.partitionId = a.partitionId
  storageKey : a'.storageKey = a.storageKey
  ownerServiceId : a'.ownerServiceId = a.ownerServiceId
  createdAt : a'.createdAt = a.createdAt
  sizeBytes : a.sizeBytes ≠ none → a'.sizeBytes = a.sizeBytes
  checksum : a.checksum ≠ none → a'.checksum = a.checksum
  payloadDeletedAt : a.payloadDeletedAt ≠ none → a'.payloadDeletedAt = a.payloadDeletedAt
  state : a'.state = a.state ∨ a'.state ∈ a.state.next

theorem Evolves.refl (a : Asset) : Evolves a a :=
  ⟨rfl, rfl, rfl, rfl, rfl, rfl, fun _ => rfl, fun _ => rfl, fun _ => rfl, .inl rfl⟩

theorem AssetState.next_trans : ∀ {s s' s'' : AssetState}, s' = s ∨ s' ∈ s.next →
    s'' = s' ∨ s'' ∈ s'.next → s'' = s ∨ s'' ∈ s.next := by
  intro s s' s''
  cases s <;> cases s' <;> cases s'' <;> decide

theorem Evolves.trans {a'' : Asset} (h : Evolves a a') (h' : Evolves a' a'') : Evolves a a'' where
  assetId := h'.assetId.trans h.assetId
  space := h'.space.trans h.space
  partitionId := h'.partitionId.trans h.partitionId
  storageKey := h'.storageKey.trans h.storageKey
  ownerServiceId := h'.ownerServiceId.trans h.ownerServiceId
  createdAt := h'.createdAt.trans h.createdAt
  sizeBytes hs := (h'.sizeBytes (by rwa [h.sizeBytes hs])).trans (h.sizeBytes hs)
  checksum hc := (h'.checksum (by rwa [h.checksum hc])).trans (h.checksum hc)
  payloadDeletedAt hp :=
    (h'.payloadDeletedAt (by rwa [h.payloadDeletedAt hp])).trans (h.payloadDeletedAt hp)
  state := AssetState.next_trans h.state h'.state

theorem Transition.evolves {action : AuditAction} (h : Transition env clock id a op action a')
    (ha : Shaped a) : Evolves a a' := by
  cases h with
  | commit before =>
    obtain ⟨hsize, hchecksum, -, -⟩ := ha.pending before
    exact ⟨rfl, rfl, rfl, rfl, rfl, rfl, fun h => (h hsize).elim, fun h => (h hchecksum).elim,
      fun _ => rfl, .inr (by simp [before, AssetState.next, committed])⟩
  | expire before _ =>
    exact ⟨rfl, rfl, rfl, rfl, rfl, rfl, fun _ => rfl, fun _ => rfl, fun _ => rfl,
      .inr (by simp [before, AssetState.next])⟩
  | orphan _ _ before _ =>
    refine ⟨rfl, rfl, rfl, rfl, rfl, rfl, fun _ => rfl, fun _ => rfl, fun _ => rfl, .inr ?_⟩
    rcases before with h | h <;> simp [h, AssetState.next]
  | delete before =>
    refine ⟨rfl, rfl, rfl, rfl, rfl, rfl, fun _ => rfl, fun _ => rfl, fun _ => rfl, .inr ?_⟩
    rcases before with h | h <;> simp [h, AssetState.next]
  | lapse before =>
    exact ⟨rfl, rfl, rfl, rfl, rfl, rfl, fun _ => rfl, fun _ => rfl, fun _ => rfl,
      .inr (by simp [before, AssetState.next])⟩
  | retire before _ =>
    refine ⟨rfl, rfl, rfl, rfl, rfl, rfl, fun _ => rfl, fun _ => rfl, fun _ => rfl, ?_⟩
    rcases before with h | h | h <;> simp [h, AssetState.next]
  | purge before unpurged =>
    exact ⟨rfl, rfl, rfl, rfl, rfl, rfl, fun _ => rfl, fun _ => rfl, fun h => (h unpurged).elim,
      .inl before.symm⟩
  | restore before _ _ =>
    refine ⟨rfl, rfl, rfl, rfl, rfl, rfl, fun _ => rfl, fun _ => rfl, fun _ => rfl, ?_⟩
    rcases before with h | h <;> simp [h, AssetState.next]

theorem Touch.evolves (h : Touch env clock id op a a') (ha : Shaped a) : Evolves a a' := by
  have kept : Evolves a a := .refl a
  cases h with
  | same => exact kept
  | note =>
    exact ⟨rfl, rfl, rfl, rfl, rfl, rfl, kept.sizeBytes, kept.checksum,
      kept.payloadDeletedAt, .inl rfl⟩
  | enlist => exact ⟨rfl, rfl, rfl, rfl, rfl,
      rfl, kept.sizeBytes, kept.checksum, kept.payloadDeletedAt, .inl rfl⟩
  | delist =>
    exact ⟨rfl, rfl, rfl, rfl, rfl, rfl, kept.sizeBytes, kept.checksum,
      kept.payloadDeletedAt, .inl rfl⟩
  | move step => exact step.evolves ha

/-! ### Runs -/

/-- Every stored asset has the shape of its state. -/
def Registry.Shaped (r : Registry) : Prop := ∀ id a, r.assets.get id = some a → AssetStore.Shaped a

theorem Registry.Shaped.change (h : r.Shaped) (hc : Change env clock r op r') : r'.Shaped := by
  intro id a' hget
  rcases hc.origin hget with ⟨a, ha, htouch⟩ | ⟨req, -, -, hnew, -⟩
  · exact htouch.shaped (h id a ha)
  · exact hnew.shaped

/-- Along the changes of a call every stored asset keeps its shape and evolves. -/
theorem Registry.Shaped.evolves (h : r.Shaped) (hc : Changes env clock op r r') :
    r'.Shaped ∧ ∀ id a, r.assets.get id = some a →
      ∃ a', r'.assets.get id = some a' ∧ Evolves a a' := by
  induction hc with
  | refl => exact ⟨h, fun id a ha => ⟨a, ha, .refl a⟩⟩
  | tail _ hstep ih =>
    obtain ⟨hshaped, hevolves⟩ := ih
    refine ⟨hshaped.change hstep, fun id a ha => ?_⟩
    obtain ⟨c, hc, hac⟩ := hevolves id a ha
    obtain ⟨a', ha', htouch⟩ := hstep.touch hc
    exact ⟨a', ha', hac.trans (htouch.evolves (hshaped id c hc))⟩

variable {grace : Int} {calls : List (Op × (Nat → Time))}

theorem Runs.shaped (h : Runs env (Registry.initial grace) calls r) : r.Shaped :=
  h.of_change (fun _ _ hget => by cases hget) fun _ hr hc => hr.change hc

/-- A call of a run evolves every stored asset. -/
theorem Runs.exec_evolves (h : Runs env (Registry.initial grace) calls r) (fresh : op.Fresh r)
    (get : r.assets.get id = some a) :
    ∃ a', (op.exec env clock r).assets.get id = some a' ∧ Evolves a a' :=
  (h.shaped.evolves (Op.exec_changes h.sound.1 h.indexed fresh)).2 id a get

theorem Runs.evolves {more : List (Op × (Nat → Time))}
    (before : Runs env (Registry.initial grace) calls r)
    (h : Runs env r more r') (get : r.assets.get id = some a) :
    ∃ a', r'.assets.get id = some a' ∧ Evolves a a' := by
  induction h with
  | nil => exact ⟨a, get, .refl a⟩
  | snoc first fresh ih =>
    obtain ⟨a1, get1, hfirst⟩ := ih
    obtain ⟨a', get', hlast⟩ := (before.append first).exec_evolves fresh get1
    exact ⟨a', get', hfirst.trans hlast⟩

/-- Any calls lead from one registry to the other. -/
def Leads (env : Env) (r r' : Registry) : Prop := ∃ calls, Runs env r calls r'

theorem Leads.refl (r : Registry) : Leads env r r := ⟨[], .nil⟩

theorem Leads.call (fresh : op.Fresh r) : Leads env r (op.exec env clock r) := ⟨_, .snoc .nil fresh⟩

instance : Trans (Leads env) (Leads env) (Leads env) where
  trans := fun ⟨_, h⟩ ⟨_, h'⟩ => ⟨_, h.append h'⟩

theorem Leads.evolves (h : Leads env r r') (before : Runs env (Registry.initial grace) calls r)
    (get : r.assets.get id = some a) (get' : r'.assets.get id = some a') : Evolves a a' := by
  obtain ⟨more, hmore⟩ := h
  obtain ⟨a1, hget, hev⟩ := before.evolves hmore get
  obtain rfl := Option.some.inj (get'.symm.trans hget)
  exact hev

/-- Each stored asset is filed under its own id. -/
def Registry.Filed (r : Registry) : Prop := ∀ id a, r.assets.get id = some a → a.assetId = id

theorem Runs.filed (h : Runs env (Registry.initial grace) calls r) : r.Filed :=
  fun id _ get => h.sound.1.row_filed id _ (Registry.books_get get)

/-- What a maintenance update does to a stored asset. -/
theorem Runs.exec_lifecycleUpdate {a0 : Asset} {state : AssetState} {now : Time} {reason : Text}
    {purge : Bool} (h : Runs env (Registry.initial grace) calls r) (get : r.assets.get id = some a)
    (get' : ((Op.lifecycleUpdate a0 state now reason purge).exec env clock r).assets.get id =
      some a') :
    a' = a ∨ a = a0 ∧ validateCleanupTransition a state purge = .ok () ∧
      a' = { a with
        state, updatedAt := now
        expiredAt := if state = .expired then some now else a.expiredAt
        payloadDeletedAt := if purge then some now else a.payloadDeletedAt } := by
  simp only [Op.exec, Op.run, final_bind_pure] at get'
  cases hrun : lifecycleUpdate a0 state now reason purge ⟨r, clock⟩ with
  | ok u s' =>
    rw [hrun, final_ok] at get'
    obtain ⟨hget, hallowed, hu, hassets⟩ := lifecycleUpdate_ok hrun
    rw [hassets] at get'
    by_cases hid : id = a0.assetId
    · rw [hid] at get get'
      obtain rfl : a0 = a := Option.some.inj (hget.symm.trans get)
      obtain rfl : u = a' := Option.some.inj ((Dict.get_set_self _ _ _).symm.trans get')
      exact .inr ⟨rfl, hallowed, hu⟩
    · rw [Dict.get_set_ne _ _ hid] at get'
      exact .inl (Option.some.inj (get'.symm.trans get))
  | error e s' =>
    have hsweeps := lifecycleUpdate_raises (s := ⟨r, clock⟩) h.sound.1 e s' hrun
    rw [hrun, final_error, hsweeps.reg] at get'
    exact .inl (Option.some.inj (get'.symm.trans get))

/-- In every reachable state each asset has the shape of its state, and a call evolves every asset:
what identifies it and what is written once stays, and its state moves forward. -/
theorem lifecycle_of_runs (h : Runs env (Registry.initial grace) calls r) :
    (∀ id a, r.assets.get id = some a → Shaped a) ∧
      ∀ (op : Op) (clock : Nat → Time), op.Fresh r → ∀ id a, r.assets.get id = some a →
        ∃ a', (op.exec env clock r).assets.get id = some a' ∧ Evolves a a' :=
  ⟨h.shaped, fun _ _ fresh _ _ => h.exec_evolves fresh⟩

theorem lifecycle_uploaded :
    (∃ a, uploaded.assets.get "a1".toList = some a ∧ a.state = .available ∧ a.sizeBytes ≠ none) ∧
      ∃ a', ((Op.expireAsset "a1".toList "svc".toList).exec plainEnv (fun _ => 2)
        uploaded).assets.get "a1".toList = some a' ∧ a'.sizeBytes = some 3 := by
  have hget : ∃ a, uploaded.assets.get "a1".toList = some a ∧ a.state = .available ∧
      a.sizeBytes = some 3 := by
    have hplain : (uploaded.assets.get "a1".toList).any
        (fun a => a.state == .available && a.sizeBytes == some 3) = true := by decide +kernel
    obtain ⟨a, ha, hstate⟩ := (Option.any_eq_true _ _).mp hplain
    exact ⟨a, ha, by simpa using hstate⟩
  obtain ⟨a, ha, hstate, hsize⟩ := hget
  obtain ⟨hshaped, hevolves⟩ := lifecycle_of_runs uploaded_runs
  obtain ⟨a', ha', hev⟩ :=
    hevolves (.expireAsset "a1".toList "svc".toList) (fun _ => 2) trivial _ a ha
  refine ⟨⟨a, ha, hstate, ((hshaped _ a ha).available hstate).1⟩, a', ha', ?_⟩
  rw [hev.sizeBytes (by simp [hsize]), hsize]

/-! ### Orphans -/

/-- The call gives the asset a new deadline, and restores it if it has expired. -/
def Op.Restores (op : Op) (id : Text) : Prop := ∃ ttl caller, op = .setAssetTtl id ttl caller

/-- A reservation names an alias. -/
def Op.NamesAlias : Op → Prop
  | .reserveAsset _ req => req.aliases ≠ []
  | _ => True

/-- No expired asset without aliases is restored. -/
def Op.RestoresNamed (op : Op) (r : Registry) : Prop :=
  ∀ id, op.Restores id → ∀ a, r.assets.get id = some a → a.state = .expired → a.aliases ≠ ∅

/-- The assets that are live, or that the call can make live, have a name. -/
def Registry.NamedIn (r : Registry) (op : Op) : Prop :=
  ∀ id a, r.assets.get id = some a →
    a.state = .pending ∨ a.state = .available ∨ a.state = .expired ∧ op.Restores id → a.aliases ≠ ∅

/-- The assets that are live, or will be when their upload is committed, have a name. -/
def Registry.Named (r : Registry) : Prop :=
  ∀ id a, r.assets.get id = some a → a.state = .pending ∨ a.state = .available → a.aliases ≠ ∅

/-- A call that drops no alias keeps the assets named. -/
theorem Registry.NamedIn.change (h : r.NamedIn op) (names : op.NamesAlias)
    (keeps : ¬∃ space name caller,
      op = .detachAlias space name caller ∨ op = .detachMutableAlias space name caller)
    (hc : Change env clock r op r') : r'.NamedIn op := by
  intro id a' hget hlive
  rcases hc.origin hget with ⟨a, ha, htouch⟩ | ⟨req, rfl, -, -, hnamed⟩
  · have hnamed := h id a ha
    cases htouch with
    | same => exact hnamed hlive
    | note => exact hnamed hlive
    | enlist => simp
    | delist detaches => exact (keeps detaches).elim
    | move step =>
      cases step with
      | commit before => exact hnamed (.inl before)
      | expire before => exact hnamed (.inr (.inl before))
      | orphan detaches => exact (keeps detaches).elim
      | delete => simp at hlive
      | lapse before => exact hnamed (.inr (.inl before))
      | retire => simp at hlive
      | purge => simp at hlive
      | restore before _ _ =>
        rcases before with h | h
        · exact hnamed (.inr (.inl h))
        · exact hnamed (.inr (.inr ⟨h, _, _, rfl⟩))
  · exact hnamed names

/-- An asset whose last alias was dropped is collected. -/
theorem markForGcIfOrphaned_named {caller : Text} {u : Unit} {s s' : Session}
    (h : markForGcIfOrphaned id caller s = .ok u s')
    (others : ∀ i c, i ≠ id → s.reg.assets.get i = some c →
      c.state = .pending ∨ c.state = .available → c.aliases ≠ ∅) : s'.reg.Named := by
  simp only [markForGcIfOrphaned, bind_eq_ok, getAsset_eq_ok] at h
  obtain ⟨a, _, ⟨get, rfl⟩, h⟩ := h
  intro i c hc hlive
  split at h
  · rename_i hcond
    obtain ⟨-, rfl⟩ := pure_eq_ok.mp h
    by_cases heq : i = id
    · subst heq
      obtain rfl : a = c := Option.some.inj (get.symm.trans hc)
      rcases hcond with h | h | h
      · exact h
      · simp [h] at hlive
      · simp [h] at hlive
    · exact others i c heq hc hlive
  · simp only [bind_eq_ok, utcnow_eq_ok, putAsset_eq_ok, audit_eq_ok] at h
    obtain ⟨_, _, ⟨rfl, rfl⟩, _, _, ⟨rfl, rfl⟩, _, _, rfl, _, _, hrelease, rfl⟩ := h
    obtain ⟨p, b, rfl⟩ := releaseQuota_charges hrelease
    by_cases heq : i = id
    · subst heq
      obtain rfl := Option.some.inj ((Dict.get_set_self _ _ _).symm.trans hc)
      simp at hlive
    · exact others i c heq ((Dict.get_set_ne _ _ heq).symm.trans hc) hlive

theorem detachAlias_named {space name caller : Text} {u : Unit} {s s' : Session} (hr : s.reg.Named)
    (h : detachAlias space name caller s = .ok u s') : s'.reg.Named := by
  simp only [detachAlias, removeAliasFromAsset, bind_eq_ok, getBinding_eq_key, attempt_eq_ok,
    raiseNaming_eq_ok, someOr_eq_ok, updateTables_eq_ok, getAsset_eq_ok, utcnow_eq_ok,
      putAsset_eq_ok,
    audit_eq_ok] at h
  obtain ⟨b, _, ⟨found, hfound, hget, rfl⟩, _, _, ⟨himmutable, rfl⟩, key, _, ⟨hown, rfl⟩, id, _,
    ⟨hbound, rfl⟩, _, _, rfl, _, _, ⟨a, _, ⟨hasset, rfl⟩, _, _, ⟨rfl, rfl⟩, rfl⟩, _, s1,
    hbury, _, _, rfl,
    hmark⟩ := h
  obtain ⟨now, -, -, hreg⟩ := buryName_eq_ok hbury
  refine markForGcIfOrphaned_named hmark fun i c hne hc hlive => hr i c ?_ hlive
  rw [hreg] at hc
  exact (Dict.get_set_ne _ _ hne).symm.trans hc

theorem detachMutableAlias_named {space name caller : Text} {b : AliasBinding} {s s' : Session}
    (hr : s.reg.Named) (h : detachMutableAlias space name caller s = .ok b s') : s'.reg.Named := by
  simp only [detachMutableAlias, removeAliasFromAsset, bind_eq_ok, getBinding_eq_key, attempt_eq_ok,
    raiseNaming_eq_ok, someOr_eq_ok, getAsset_eq_ok, utcnow_eq_ok, putAsset_eq_ok, putBinding_eq_ok,
    audit_eq_ok, pure_eq_ok] at h
  obtain ⟨b, _, ⟨found, hfound, hget, rfl⟩, _, _, ⟨hmutable, rfl⟩, key, _, ⟨hown, rfl⟩, id, _,
    ⟨hbound, rfl⟩, _, _, ⟨a, _, ⟨hasset, rfl⟩, _, _, ⟨rfl, rfl⟩, rfl⟩, _, _, ⟨rfl, rfl⟩, _,
    _, rfl, _, _,
    rfl, _, _, hmark, rfl, rfl⟩ := h
  refine markForGcIfOrphaned_named hmark fun i c hne hc hlive => hr i c ?_ hlive
  exact (Dict.get_set_ne _ _ hne).symm.trans hc

/-- A call keeps the live assets named, unless it restores one without aliases or overflows. -/
theorem Registry.Named.exec (hv : r.books.Valid normPart) (hi : Indexed r.aliases r.assets)
    (fresh : op.Fresh r) (names : op.NamesAlias) (restores : op.RestoresNamed r)
    (dated : ¬op.Overflows clock r.aliasGrace) (h : r.Named) : (op.exec env clock r).Named := by
  by_cases hdetaches : ∃ space name caller,
      op = .detachAlias space name caller ∨ op = .detachMutableAlias space name caller
  · unfold Op.exec
    cases hrun : op.run env ⟨r, clock⟩ with
    | error e s' =>
      have hsweeps := (Op.raises (s := ⟨r, clock⟩) hv hi.bindsStored hrun).resolve_right
        fun hover => dated hover.2.1
      rw [final_error, hsweeps.reg]
      exact h
    | ok reply s' =>
      obtain ⟨space, name, caller, rfl | rfl⟩ := hdetaches
      · obtain ⟨_, hrun⟩ := replied hrun
        exact detachAlias_named (s := ⟨r, clock⟩) h hrun
      · obtain ⟨_, hrun⟩ := replied hrun
        exact detachMutableAlias_named (s := ⟨r, clock⟩) h hrun
  · have hstart : r.NamedIn op := by
      intro id a ha hlive
      rcases hlive with hs | hs | ⟨hs, hop⟩
      · exact h id a ha (.inl hs)
      · exact h id a ha (.inr hs)
      · exact restores id hop a ha hs
    have hend : (op.exec env clock r).NamedIn op := by
      have hchanges : Changes env clock op r (op.exec env clock r) := Op.exec_changes hv hi fresh
      generalize op.exec env clock r = r' at hchanges ⊢
      induction hchanges with
      | refl => exact hstart
      | tail _ hstep ih => exact ih.change names hdetaches hstep
    intro id a ha hlive
    exact hend id a ha (hlive.imp_right .inl)

/-- As long as no expired asset without aliases is restored and no detach overflows, every live
asset has a name. -/
theorem live_named_of_runs (h : Runs env (Registry.initial grace) calls r)
    (names : ∀ c ∈ calls, c.1.NamesAlias)
    (restores : MadeWhere env (Registry.initial grace) calls Op.RestoresNamed)
    (dated : ∀ c ∈ calls, ¬c.1.Overflows c.2 grace) :
    ∀ id a, r.assets.get id = some a → a.state = .available →
      ∃ key b, r.aliases.get key = some b ∧ b.assetId = some id := by
  have hnamed : r.Named := by
    refine h.of_calls (fun _ _ hget => by cases hget) fun {_ op clock _ _} hsplit before
      fresh hr => ?_
    have hmem : (op, clock) ∈ calls := by simp [hsplit]
    exact hr.exec before.sound.1 before.indexed fresh (names _ hmem)
      (restores _ _ _ _ _ hsplit before) (before.aliasGrace.symm ▸ dated _ hmem)
  intro id a ha hlive
  obtain ⟨key, hkey⟩ := Finset.nonempty_iff_ne_empty.mpr (hnamed id a ha (.inr hlive))
  obtain ⟨b, hb, hid⟩ := h.indexed.bound id a key ha hkey
  exact ⟨key, b, hb, hid⟩

theorem live_named_uploaded :
    ∃ key b, uploaded.aliases.get key = some b ∧ b.assetId = some "a1".toList := by
  have hlive : (uploaded.assets.get "a1".toList).any (fun a => a.state == .available) = true := by
    decide +kernel
  obtain ⟨a, ha, hstate⟩ := (Option.any_eq_true _ _).mp hlive
  refine live_named_of_runs uploaded_runs ?_ ?_ ?_ _ a ha (by simpa using hstate)
  · simp [reserveCall, commitCall, Op.NamesAlias]
  · intro before op clock after r hsplit _ id hop
    obtain ⟨ttl, caller, rfl⟩ := hop
    have hmem : (Op.setAssetTtl id ttl caller, clock) ∈
        [(reserveCall, fun _ => (0 : Time)), (commitCall, fun _ => 1)] := by simp [hsplit]
    simp [reserveCall, commitCall] at hmem
  · simp [reserveCall, commitCall, Op.Overflows]

/-- An asset loses its last alias and is collected, and a new deadline makes it live again. -/
theorem restored_orphan : ∃ calls r, Runs plainEnv (.initial 0) calls r ∧
    (∀ c ∈ calls, c.1.NamesAlias) ∧
    ∃ a, r.assets.get "a1".toList = some a ∧ a.state = .available ∧
      ¬∃ key b, r.aliases.get key = some b ∧ b.assetId = some "a1".toList := by
  let calls : List (Op × (Nat → Time)) :=
    [(reserveCall, fun _ => 0), (commitCall, fun _ => 0),
     (.detachAlias "cache".toList "m/x".toList "svc".toList, fun _ => 0),
     (.setAssetTtl "a1".toList 60 "admin".toList, fun _ => 0)]
  have hplays : (playCalls plainEnv (.initial 0) calls).any (fun r =>
      (r.assets.get "a1".toList).any (fun a => a.state == .available) && r.aliases.keys == []) =
        true := by
    decide +kernel
  obtain ⟨r, hruns, hend⟩ := exists_runs_of_play hplays
  obtain ⟨hlive, hkeys⟩ := Bool.and_eq_true_iff.mp hend
  obtain ⟨a, ha, hstate⟩ := (Option.any_eq_true _ _).mp hlive
  refine ⟨calls, r, hruns, ?_, a, ha, by simpa using hstate, ?_⟩
  · simp [calls, reserveCall, commitCall, Op.NamesAlias]
  · rintro ⟨key, b, hb, -⟩
    have hmem : key ∈ r.aliases.keys := by
      rw [Dict.mem_keys, hb]
      rfl
    simp [beq_iff_eq.mp hkeys] at hmem

/-- A detach overflows after it has dropped the last alias of an asset, which stays live. -/
theorem dropped_orphan : ∃ calls r, Runs plainEnv (.initial maxGrace) calls r ∧
    (∀ c ∈ calls, c.1.NamesAlias) ∧
    ∃ a, r.assets.get "a1".toList = some a ∧ a.state = .available ∧ a.aliases = ∅ := by
  let calls : List (Op × (Nat → Time)) :=
    [(reserveCall, fun _ => 0), (commitCall, fun _ => 0), (withdrawCall, fun _ => 0)]
  have hplays : (playCalls plainEnv (.initial maxGrace) calls).any (fun r =>
      (r.assets.get "a1".toList).any fun a => a.state == .available && a.aliases == ∅) = true := by
    decide +kernel
  obtain ⟨r, hruns, hend⟩ := exists_runs_of_play hplays
  obtain ⟨a, ha, hlive⟩ := (Option.any_eq_true _ _).mp hend
  refine ⟨calls, r, hruns, ?_, a, ha, by simpa using hlive⟩
  simp [calls, reserveCall, commitCall, withdrawCall, Op.NamesAlias]

end AssetStore
