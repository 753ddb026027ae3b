import AssetStore.Service.Duties

/-! The calls of the guard under the contract of the service: what a request may do in the name of
the owner of a capability, or of the caller of a commit. -/

namespace AssetStore

open Lib Relation

variable {ι α β : Type}

/-- The request honours the contract of the service. -/
abbrev Dutiful (present used : Text → Prop) (env : Env) (grace : Int) (seen : Vault → Prop)
    (Q : α → Service ι → Prop) (p : ServiceProg α) (s : Service ι) : Prop :=
  p.Honours (duties present used env grace seen ι) Q s

/-- The call of the guard honours the contract of the service. -/
abbrev Guarded (present used : Text → Prop) (env : Env) (grace : Int) (seen : Vault → Prop)
    (Q : α → Service ι → Prop) (p : GuardProg α) (s : Service ι) : Prop :=
  p.Honours ((duties present used env grace seen ι).along ServiceCmd.guard) Q s

variable {present used : Text → Prop} {env : Env} {grace : Int} {seen : Vault → Prop} {v v' : Vault}
  {s : Service ι} {id : Text} {a a' : Asset}

/-! ### Assets over time -/

theorem Vault.Leads.evolves (h : v.Leads present env v') (sound : v.Sound present used env grace)
    (get : v.reg.assets.get id = some a) : ∃ a', v'.reg.assets.get id = some a' ∧ Evolves a a' := by
  refine (h.induct (P := fun w => ∃ a', w.reg.assets.get id = some a' ∧ Evolves a a') sound
    ⟨a, get, .refl a⟩ fun {w w'} hw hP hstep => ?_).2
  obtain ⟨a1, get1, hev⟩ := hP
  cases hstep with
  | call licensed named run =>
    obtain ⟨calls, hcalls⟩ := hw.reached
    obtain ⟨a2, get2, hev2⟩ := hcalls.exec_evolves named.fresh get1
    rw [Op.exec_of_ok run] at get2
    exact ⟨a2, get2, hev.trans hev2⟩
  | _ => exact ⟨a1, get1, hev⟩

theorem Evolves.location (h : Evolves a a') : a'.location = a.location := by
  rw [Asset.location, h.space, h.storageKey, Asset.location]

/-- The asset was once stored so. -/
def StoredOnce (present used : Text → Prop) (env : Env) (grace : Int)
    (seen : Vault → Prop) (id : Text)
    (a : Asset) (v : Vault) : Prop :=
  Once present used env grace seen (fun w => w.reg.assets.get id = some a) v

namespace StoredOnce

theorem later (h : StoredOnce present used env grace seen id a v)
    (hleads : v.Leads present env v') :
    StoredOnce present used env grace seen id a v' := Once.later h hleads

theorem evolves (h : StoredOnce present used env grace seen id a v) :
    ∃ a', v.reg.assets.get id = some a' ∧ Evolves a a' := by
  obtain ⟨w, -, hsound, hw, hget⟩ := h
  exact hw.evolves hsound hget

/-- Two views of one asset agree on what never changes. -/
theorem common (h : StoredOnce present used env grace seen id a v)
    (h' : StoredOnce present used env grace seen id a' v) :
    a'.ownerServiceId = a.ownerServiceId ∧ a'.space = a.space := by
  obtain ⟨c, hc, hev⟩ := h.evolves
  obtain ⟨c', hc', hev'⟩ := h'.evolves
  obtain rfl := Option.some.inj (hc.symm.trans hc')
  exact ⟨hev'.ownerServiceId.symm.trans hev.ownerServiceId, hev'.space.symm.trans hev.space⟩

theorem mine (h : StoredOnce present used env grace seen id a v)
    (owner : present a.ownerServiceId) :
    v.Mine present a.location := by
  obtain ⟨c, hc, hev⟩ := h.evolves
  exact ⟨id, c, hc, hev.location, hev.ownerServiceId ▸ owner⟩

theorem holds (h : StoredOnce present used env grace seen id a v) : v.Holds a.location := by
  obtain ⟨c, hc, hev⟩ := h.evolves
  exact ⟨id, c, hc, hev.location⟩

/-- The location of a stored asset. -/
theorem forAsset {location : ObjectStoreLocation}
    (h : StoredOnce present used env grace seen id a v)
    (hlocation : ObjectStoreLocation.forAsset a.space a.partitionId a.assetId = .ok location) :
    a.location = location := by
  obtain ⟨w, -, hsound, -, hget⟩ := h
  obtain ⟨calls, hcalls⟩ := hsound.reached
  have hspace : a.space ∈ storageBuckets := hcalls.housed.bucket id a hget
  have hkey : buildStorageKey a.partitionId a.assetId = .ok a.storageKey := by
    rw [hcalls.filed id a hget]
    exact (hsound.keyed id a hget).2
  rw [ObjectStoreLocation.forAsset, normalizeBucket_of_mem hspace, hkey] at hlocation
  exact Except.ok.inj hlocation

end StoredOnce

/-! ### Statements -/

/-- From now on, the last operation of a block may be committed. -/
def Closing (present used : Text → Prop) (env : Env) (grace : Int) (m : RegM β)
    (v : Vault) : Prop :=
  ∀ v', v.Leads present env v' → v'.Sound present used env grace → Works present env m v'

/-- The registry work has returned. -/
def Ran (present used : Text → Prop) (env : Env) (grace : Int) (seen : Vault → Prop)
    (m : RegM β) (b : β)
    (v : Vault) : Prop :=
  Once present used env grace seen (fun w => ∃ clock t, m ⟨w.reg, clock⟩ = .ok b t) v

theorem registry_guarded {m : RegM β} (closing : Closing present used env grace m s.vault) :
    Guarded present used env grace seen (fun b s' => Ran present used env grace seen m b s'.vault)
      (registry m)
      s :=
  .perform fun _ hlater hinv => closing _ hlater hinv.2

theorem read_guarded {m : RegM β} (keeps : Keeps (fun r => r) m) :
    Guarded present used env grace seen (fun b s' => Ran present used env grace seen m b s'.vault)
      (registry m)
      s :=
  registry_guarded fun _ _ _ => .read keeps

/-- A locked block is allowed when its body is and when its last operation may be committed. -/
theorem withAssetLock_guarded {body : Asset → GuardProg (RegM β)} {T : Asset → RegM β → Prop}
    (hbody : ∀ a (s1 : Service ι), s.vault.Leads present env s1.vault →
      StoredOnce present used env grace seen id a s1.vault →
      Guarded present used env grace seen
      (fun m s2 => Closing present used env grace m s2.vault ∧ T a m)
        (body a) s1) :
    Guarded present used env grace seen (fun b s' => ∃ a m,
      StoredOnce present used env grace seen id a s'.vault ∧ T a m ∧
      Ran present used env grace seen m b s'.vault) (withAssetLock id body) s := by
  refine .bind (.perform fun _ _ _ => trivial) fun a s1 h1 hget => ?_
  refine .cleaningUp ?_ fun _ _ => .perform fun _ _ _ => trivial
  refine .bind (hbody a s1 h1 hget) fun m s2 h2 ⟨closing, hT⟩ => ?_
  refine .conseq (.perform fun _ hlater hinv => closing _ hlater hinv.2) fun b s3 h3 told => ?_
  exact ⟨a, m, (hget.later h2).later h3, hT, told⟩

theorem closing_pure {b : β} : Closing present used env grace (pure b : RegM β) v :=
  fun _ _ _ => .read Within.pure

/-- A maintenance update, and the answer of its block. -/
theorem closing_update {state : AssetState} {now : Time} {reason : Text} {purge : Bool}
    {f : Asset → β}
    (licensed : ∀ r, Licensed present r (.lifecycleUpdate a state now reason purge)) :
    Closing present used env grace (do
      let u ← lifecycleUpdate a state now reason purge
      return f u) v := by
  refine fun v' _ _ => .call (licensed v'.reg) trivial fun q b t hm => ?_
  obtain ⟨u, hu⟩ := replied hm
  exact ⟨.asset u, by rw [Op.run, bind_of_ok hu]; rfl⟩

/-- A commit by the owner of the asset, or by the admin. -/
theorem closing_commit {who checksum : Text} {size : Int} {mime expected : Option Text}
    (stored : StoredOnce present used env grace seen id a v) (caller : present who)
    (owner : a.ownerServiceId = who ∨ who = adminService) (mayWrite : MayUse who a.space .write) :
    Closing present used env grace (commitAsset env id size checksum who mime expected) v := by
  intro v' hleads _
  obtain ⟨c, hc, hev⟩ := (stored.later hleads).evolves
  have licensed : Licensed present v'.reg (.commitAsset id size checksum who mime expected) :=
    .commit caller hc (hev.ownerServiceId ▸ owner) (hev.space ▸ mayWrite)
  exact .call licensed trivial fun q b t hm => ⟨.asset b, by rw [Op.run, bind_of_ok hm]; rfl⟩

/-- A commit returns an asset of the same owner in the same space. -/
theorem Ran.committed {who checksum : Text} {size : Int} {mime expected : Option Text}
    (h : Ran present used env grace seen (commitAsset env id size checksum who mime expected) a' v)
    (stored : StoredOnce present used env grace seen id a v) :
    a'.ownerServiceId = a.ownerServiceId ∧ a'.space = a.space := by
  obtain ⟨w, hseen, hsound, hw, clock, t, hrun⟩ := h
  obtain ⟨c, now, hget, -, rfl, -⟩ := commitAsset_eq_ok hrun
  have hc : StoredOnce present used env grace seen id c v := ⟨w, hseen, hsound, hw, hget⟩
  have hcommon := stored.common hc
  exact hcommon

/-! ### Authorization -/

section Authorized

variable {cap : Capability} {operation : Operation} {aliasName : Text}

theorem authorize_guarded : Guarded present used env grace seen
    (fun parsed _ => parsed.space ∈ storageBuckets ∧
      MayUse cap.callerServiceId parsed.space operation)
    (authorize cap operation aliasName) s := by
  refine .bind .ret fun parsed _ _ hparsed => .bind (read_guarded Within.utcnow) fun _ _ _ _ => ?_
  refine .bind .ret fun _ _ _ _ => .bind (.perform fun _ _ _ => trivial) fun _ _ _ _ => ?_
  exact .bind .ret fun _ _ _ hallowed => .pure ⟨(parseAlias_eq_ok hparsed).1, hallowed⟩

/-- The asset of a read, in a bucket that the caller may read. -/
theorem resolveForRead_guarded : Guarded present used env grace seen
    (fun found s' => StoredOnce present used env grace seen found.1.assetId found.1 s'.vault ∧
      found.1.location = found.2 ∧ MayUse cap.callerServiceId found.1.space .read)
    (resolveForRead cap aliasName) s := by
  refine .bind authorize_guarded fun parsed s1 _ ⟨hbucket, hallowed⟩ => ?_
  refine .bind (read_guarded Within.resolveAlias) fun a s2 _ hran => ?_
  have hfound : StoredOnce present used env grace seen a.assetId a s2.vault ∧
      parsed.space = a.space := by
    obtain ⟨w, hseen, hsound, hw, clock, t, hrun⟩ := hran
    obtain ⟨calls, hcalls⟩ := hsound.reached
    obtain ⟨hget, hspace⟩ := hcalls.resolveAlias_found (s := ⟨w.reg, clock⟩) hrun
    exact ⟨⟨w, hseen, hsound, hw, hget⟩,
      Except.ok.inj ((normalizeBucket_of_mem hbucket).symm.trans hspace)⟩
  obtain ⟨hstored, hspace⟩ := hfound
  exact .bind .ret fun location s3 h3 hlocation =>
    .pure ⟨hstored.later h3, hstored.forAsset hlocation, hspace ▸ hallowed⟩

/-- A read is recorded on an asset that the caller may read. -/
theorem closing_recordRead {who : Text} (stored : StoredOnce present used env grace seen id a v)
    (caller : present who) (mayRead : MayUse who a.space .read) :
    Closing present used env grace (recordRead id) v := by
  intro v' hleads _
  obtain ⟨c, hc, hev⟩ := (stored.later hleads).evolves
  have licensed : Licensed present v'.reg (.recordRead id) := .read caller hc (hev.space ▸ mayRead)
  exact .call licensed trivial fun q b t hm => ⟨.none, by rw [Op.run, bind_of_ok hm]; rfl⟩

/-- Bytes that once were the object of a stored asset, in a bucket that the service may read. -/
def ReadableBytes (once : (Vault → Prop) → Prop) (who : Text) (data : List UInt8) : Prop :=
  ∃ location, MayUse who location.bucket .read ∧
    once fun w => w.store.get location = some data ∧ w.Holds location

theorem readBytes_guarded (caller : present cap.callerServiceId) :
    Guarded present used env grace seen
    (fun data s' =>
      ReadableBytes (fun P => Once present used env grace seen P s'.vault) cap.callerServiceId data)
    (readBytes cap aliasName) s := by
  refine .bind resolveForRead_guarded fun found s1 _ ⟨hstored, hlocation, hallowed⟩ => ?_
  refine .bind (.perform fun s2 h2 _ => hlocation ▸ (hstored.later h2).holds) fun data s2
    h2 hdata => ?_
  refine .bind (registry_guarded (closing_recordRead (hstored.later h2) caller hallowed))
    fun _ s3 h3 _ => ?_
  refine .bind (.perform fun _ _ _ => trivial) fun _ s4 h4 _ =>
    .pure ⟨found.2, ?_, (hdata.later h3).later h4⟩
  rw [← hlocation]
  exact hallowed

/-- The URL was signed for the object of an asset that once was stored so, in a bucket that the
service may read. -/
structure SignedRead (once : (Vault → Prop) → Prop)
    (presignGetUrl : ObjectStoreLocation → Int → Except Err Text) (who : Text)
    (url : PresignedRead) :
    Prop where
  mayRead : MayUse who url.asset.space .read
  stored : once fun w => w.reg.assets.get url.asset.assetId = some url.asset
  signed : presignGetUrl url.asset.location url.expiresIn = .ok url.url

theorem presignRead_guarded {presignGetUrl : ObjectStoreLocation → Int → Except Err Text}
    {expiresIn : Int} (caller : present cap.callerServiceId) : Guarded present used env grace seen
    (fun url s' => SignedRead (fun P => Once present used env grace seen P s'.vault) presignGetUrl
      cap.callerServiceId url)
    (presignRead presignGetUrl cap aliasName expiresIn) s := by
  have capByAsset_guarded : ∀ {a : Asset} {ttl : Int} {s : Service ι},
      Guarded present used env grace seen (fun _ _ => True) (capByAsset a ttl) s := by
    intro a ttl s
    unfold capByAsset
    split
    · exact .pure trivial
    · exact .bind (read_guarded Within.utcnow) fun _ _ _ _ => .bind .ret fun _ _ _ _ =>
        .pure trivial
  refine .bind .ret fun _ _ _ _ => .bind .ret fun _ _ _ _ => ?_
  refine .bind resolveForRead_guarded fun found s1 _ ⟨hstored, hlocation, hallowed⟩ => ?_
  refine .bind (read_guarded Within.utcnow) fun _ s2 h2 _ => .bind .ret fun _ s3 h3 _ => ?_
  refine .bind capByAsset_guarded fun ttl s4 h4 _ => .bind .ret fun url s5 h5 hsigned => ?_
  have hstored5 := (((hstored.later h2).later h3).later h4).later h5
  refine .bind (registry_guarded (closing_recordRead hstored5 caller hallowed)) fun _ s6 h6 _ => ?_
  refine .bind (read_guarded Within.utcnow) fun _ s7 h7 _ => .pure ⟨hallowed, ?_, ?_⟩
  · exact (hstored5.later h6).later h7
  · rw [hlocation]
    exact hsigned

end Authorized

/-! ### Uploads and commits -/

section Uploads

variable {cap : Capability} {location : ObjectStoreLocation} {aliasName newId : Text}
  {data : List UInt8}
  {opts : WriteOptions}

theorem uploadLocked_guarded (stored : StoredOnce present used env grace seen id a s.vault)
    (owner : a.ownerServiceId = cap.callerServiceId) (caller : present cap.callerServiceId)
    (mayWrite : MayUse cap.callerServiceId a.space .write) : Guarded present used env grace seen
    (fun b _ => b.ownerServiceId = a.ownerServiceId ∧ b.space = a.space)
    (uploadLocked env cap id a.location data opts) s := by
  refine .conseq (withAssetLock_guarded (T := fun _ m => ∃ stat : StoredObjectStat,
    m = commitAsset env id stat.sizeBytes stat.checksum cap.callerServiceId opts.mime
      opts.expectedChecksum)
    fun locked s1 h1 _ => ?_) fun b s' h' ⟨_, m, _, ⟨stat, hm⟩, hran⟩ => ?_
  · refine .bind .ret fun _ s2 h2 _ => .bind (.perform fun s3 h3 _ => ?_) fun stat s3 h3 _ => ?_
    · have hstored := ((stored.later h1).later h2).later h3
      exact hstored.mine (owner ▸ caller)
    · have hstored := ((stored.later h1).later h2).later h3
      exact .pure ⟨closing_commit hstored caller (.inl owner) mayWrite, stat, rfl⟩
  · subst hm
    exact hran.committed (stored.later h')

/-- The cleanup of an upload abandons and purges an asset of the caller. -/
theorem cleanupFailedUpload_guarded (stored : StoredOnce present used env grace seen id a s.vault)
    (owner : present a.ownerServiceId) : Guarded present used env grace seen (fun _ _ => True)
    (cleanupFailedUpload id a.location) s := by
  have hfence : ∀ s1 : Service ι, s.vault.Leads present env s1.vault →
      Guarded present used env grace seen (fun _ _ => True) (fenceUpload id) s1 := by
    intro s1 h1
    refine .conseq (withAssetLock_guarded (T := fun _ _ => True) fun current s2 h2 hcurrent => ?_)
      fun _ _ _ _ => trivial
    have hpresent : present current.ownerServiceId :=
      ((stored.later h1).later h2 |>.common hcurrent).1 ▸ owner
    refine .ite (fun hpending => ?_) fun _ => .pure ⟨closing_pure, trivial⟩
    refine .bind (read_guarded Within.utcnow) fun now s3 _ _ =>
      .pure ⟨closing_update fun r => ?_, trivial⟩
    exact .abandon hpresent hpending
  have hpurge : ∀ s1 : Service ι, s.vault.Leads present env s1.vault →
      Guarded present used env grace seen (fun _ _ => True) (purgeUpload id a.location) s1 := by
    intro s1 h1
    refine .conseq (withAssetLock_guarded (T := fun _ _ => True) fun fenced s2 h2 hfenced => ?_)
      fun _ _ _ _ => trivial
    have hstored := (stored.later h1).later h2
    have hpresent : present fenced.ownerServiceId := (hstored.common hfenced).1 ▸ owner
    refine .ite (fun _ => .pure ⟨closing_pure, trivial⟩) fun hkept => ?_
    have hdeleted : fenced.state = .deleted := not_not.mp (not_or.mp hkept).2
    refine .bind (.perform fun s3 h3 _ => (hstored.later h3).mine owner) fun _ s3 _ _ => ?_
    refine .bind (read_guarded Within.utcnow) fun now s4 _ _ =>
      .pure ⟨closing_update fun r => ?_, trivial⟩
    exact .purge hpresent hdeleted
  refine .tryCatch ?_ fun _ _ _ => .pure trivial
  refine .bind (hfence s (.refl)) fun removable s1 h1 _ => .ite (fun _ => hpurge s1 h1) fun _ =>
    .pure trivial

/-- An upload works on an asset of its own, in a bucket that the caller may write to. -/
theorem writeObject_guarded (caller : present cap.callerServiceId) :
    Guarded present used env grace seen
    (fun b _ => b.ownerServiceId = cap.callerServiceId ∧ MayUse cap.callerServiceId b.space .write)
    (writeObject env newId cap aliasName data opts) s := by
  refine .bind authorize_guarded fun parsed s1 _ ⟨_, hallowed⟩ => ?_
  refine .bind (.perform fun s2 _ _ => ⟨rfl, .reserve caller hallowed⟩)
    fun a s2 _ ⟨hstored, hid, howner, hspace⟩ => ?_
  have hmay : MayUse cap.callerServiceId a.space .write := (mayUse_normalized hspace).mp hallowed
  have hstored : StoredOnce present used env grace seen a.assetId a s2.vault := hid ▸ hstored
  refine .bind .ret fun location s3 h3 hlocation => ?_
  obtain rfl := hstored.forAsset hlocation
  have hstored3 := hstored.later h3
  refine .bind (.cleaningUp (uploadLocked_guarded hstored3 howner caller hmay)
    fun s4 h4 => cleanupFailedUpload_guarded (hstored3.later h4) (howner ▸ caller)) fun b s4 _ ⟨hb,
      hbspace⟩ => ?_
  refine .bind (.perform fun _ _ _ => trivial) fun _ _ _ _ =>
    .pure ⟨hb.trans howner, hbspace ▸ hmay⟩

/-- A commit is one of an own asset, or the admin's, in a bucket that the caller may write to. -/
theorem commit_guarded {who assetId : Text} {body : CommitRequest} (caller : present who) :
    Guarded present used env grace seen (fun b _ => (b.ownerServiceId = who ∨ who = adminService) ∧
      MayUse who b.space .write) (commit env who assetId body) s := by
  have hlocked : ∀ s1 : Service ι, Guarded present used env grace seen (fun b _ =>
      (b.ownerServiceId = who ∨ who = adminService) ∧ MayUse who b.space .write)
      (commitLocked env who assetId body) s1 := by
    intro s1
    refine .conseq (withAssetLock_guarded (T := fun pending m =>
      ((pending.ownerServiceId = who ∨ who = adminService) ∧ MayUse who pending.space .write) ∧
        ∃ (size : Int) (checksum : Text),
          m = commitAsset env assetId size checksum who body.mime body.expectedChecksum)
      fun pending s2 _ hstored => ?_) fun b s' _ ⟨pending, m, hstored,
        ⟨howner, _, _, hm⟩, hran⟩ => ?_
    · refine .bind .ret fun _ s3 h3 hallowed => .bind .ret fun _ s4 h4 howner => ?_
      have howner : pending.ownerServiceId = who ∨ who = adminService := by
        have hnot := raiseIf_eq_ok.mp howner
        by_cases hwho : pending.ownerServiceId = who
        · exact .inl hwho
        · exact .inr (not_not.mp fun hne => hnot ⟨hwho, hne⟩)
      refine .bind .ret fun _ s5 h5 _ => .bind (.perform fun _ _ _ => trivial) fun _ s6 h6 _ => ?_
      refine .bind .ret fun stat s7 h7 _ => .bind .ret fun _ s8 h8 _ => ?_
      have hstored8 := (((((hstored.later h3).later h4).later h5).later h6).later h7).later h8
      exact .pure ⟨closing_commit hstored8 caller howner hallowed, ⟨howner, hallowed⟩, _, _, rfl⟩
    · subst hm
      obtain ⟨hb, hspace⟩ := hran.committed hstored
      rwa [hb, hspace]
  refine .bind .ret fun _ s1 _ _ => .bind (hlocked s1) fun b s2 _ hb => ?_
  exact .bind (read_guarded Within.bucketQuota) fun _ _ _ _ => .pure hb

end Uploads

end AssetStore
