import AssetStore.Registry.Books

/-! The operations of the registry as steps of its books. Whatever an operation does, whether it
returns or raises, its books move by lifecycle transitions with their effect on the usage. -/

namespace AssetStore

open Lib Relation

section Reaches

variable {env : Env} {new : AssetRow → Prop} {s s' : Session} {α β : Type}

/-- The books of `s'` come from those of `s` by lifecycle transitions other than commits. -/
def Reaches (env : Env) (new : AssetRow → Prop) (s s' : Session) : Prop :=
  ReflTransGen (Books.Step normPart env new) s.books s'.books

theorem Reaches.of_core (h : s'.reg.core = s.reg.core) : Reaches env new s s' := by
  have hbooks : s'.books = s.books := Registry.books_of_core h
  unfold Reaches
  rw [hbooks]

theorem Reaches.trans {s'' : Session} (h : Reaches env new s s') (h' : Reaches env new s' s'') :
    Reaches env new s s'' :=
  ReflTransGen.trans h h'

theorem Reaches.valid (h : Reaches env new s s') (hv : s.books.Valid normPart) :
    s'.books.Valid normPart := by
  unfold Reaches at h
  generalize s'.books = b at h ⊢
  induction h with
  | refl => exact hv
  | tail _ hstep ih => exact ih.step hstep

/-- Every run of the computation moves the books by lifecycle transitions. -/
def Moves (env : Env) (new : AssetRow → Prop) (m : RegM α) : Prop :=
  ∀ s, s.books.Valid normPart → Reaches env new s (final (m s))

theorem Moves.silent {m : RegM α} (h : Silent m) : Moves env new m := fun s _ => .of_core (h s)

theorem Moves.bind {x : RegM α} {f : α → RegM β} (hx : Moves env new x)
    (hf : ∀ a, Moves env new (f a)) : Moves env new (x >>= f) := fun s hv =>
  final_bind (P := Reaches env new s)
    (fun e s' h => by simpa [h] using hx s hv)
    (fun a s' h => by
      have hxs : Reaches env new s s' := by simpa [h] using hx s hv
      exact hxs.trans (hf a s' (hxs.valid hv)))

/-- After a silent computation, with what its result says. -/
theorem reaches_bind {x : RegM α} {f : α → RegM β} (hx : Silent x)
    (hf : ∀ a s', x s = .ok a s' → s'.reg.core = s.reg.core →
      Reaches env new s' (final (f a s'))) : Reaches env new s (final ((x >>= f) s)) :=
  hx.final_bind (fun _ h => .of_core h) fun a s' h hc => (Reaches.of_core hc).trans (hf a s' h hc)

end Reaches

/-! ### Changes of one asset -/

section Asset

variable {env : Env} {new : AssetRow → Prop} {s s' : Session} {id p : Text}
  {a a' : Asset} {α : Type}
  {f : Unit → RegM α}

theorem get_of_core (h : s'.reg.core = s.reg.core) : s'.reg.assets = s.reg.assets :=
  congrArg Prod.fst h

theorem books_of_core (h : s'.reg.core = s.reg.core) : s'.books = s.books :=
  Registry.books_of_core h

/-- A stored asset is valid and filed under its id. -/
theorem stored_valid (hv : s.books.Valid normPart) (get : s.reg.assets.get id = some a) :
    a.toAssetRow.Valid normPart ∧ a.assetId = id :=
  ⟨hv.row_valid id _ (Registry.books_get get), hv.row_filed id _ (Registry.books_get get)⟩

theorem put_reaches (get : s.reg.assets.get id = some a)
    (move : Quiet a.toAssetRow a'.toAssetRow) : Reaches env new s (s.put id a') := by
  refine ReflTransGen.single ?_
  rw [Session.books_put]
  exact .quiet (Registry.books_get get) move

/-- Storing an asset after a quiet transition. -/
theorem reaches_put (get : s.reg.assets.get id = some a)
    (move : Quiet a.toAssetRow a'.toAssetRow) (rest : ∀ u, Silent (f u)) :
    Reaches env new s (final ((putAsset id a' >>= f) s)) := by
  rw [bind_of_ok putAsset_eq]
  exact (put_reaches get move).trans (Reaches.of_core (rest () _))

/-- Storing an asset that leaves the available state, and releasing its usage. -/
theorem reaches_leave (hv : s.books.Valid normPart) (get : s.reg.assets.get id = some a)
    (move : Leaves a.toAssetRow a'.toAssetRow) (rest : ∀ u, Silent (f u)) :
    Reaches env new s (final ((putAsset id a' >>= fun _ => releaseQuota a >>= f) s)) := by
  obtain ⟨ha, hid⟩ := stored_valid hv get
  obtain ⟨p, hp⟩ := ha.partition_known
  have hbooks := s.books_put id a'
  have hv' : (s.put id a').books.Valid normPart := by
    rw [hbooks]
    exact hv.put (move.same.assetId.trans hid) (move.valid ha)
  rw [bind_of_ok putAsset_eq, bind_of_ok (releaseQuota_eq hv' ha.space_mem hp move.before)]
  refine Reaches.trans (ReflTransGen.single ?_) (Reaches.of_core (rest () _))
  have hstep : Books.Step normPart env new s.books
      ((s.books.put id a'.toAssetRow).release a.space p (a.sizeBytes.getD 0)) :=
    .leave (Registry.books_get get) move hp
  rw [← hbooks] at hstep
  exact hstep

/-- Releasing the usage of an asset before it is stored comes to the same. -/
theorem reaches_release (hv : s.books.Valid normPart) (get : s.reg.assets.get id = some a)
    (move : Leaves a.toAssetRow a'.toAssetRow) (rest : ∀ u, Silent (f u)) :
    Reaches env new s (final ((releaseQuota a >>= fun _ => putAsset id a' >>= f) s)) := by
  obtain ⟨ha, _⟩ := stored_valid hv get
  obtain ⟨p, hp⟩ := ha.partition_known
  rw [bind_of_ok (releaseQuota_eq hv ha.space_mem hp move.before), bind_of_ok putAsset_eq]
  refine Reaches.trans (ReflTransGen.single ?_) (Reaches.of_core (rest () _))
  rw [Session.books_put]
  exact .leave (Registry.books_get get) move hp

/-- Storing an asset that an operation moves out of a state, and releasing its usage if it has
any. -/
theorem reaches_retire (hv : s.books.Valid normPart) (get : s.reg.assets.get id = some a)
    (same : SameContent a.toAssetRow a'.toAssetRow)
    (payload : a'.payloadDeletedAt = a.payloadDeletedAt)
    (after : a'.state = .deleted ∨ a.state ≠ .expired ∧ a'.state = .expired)
    (before : a.state ≠ .deleted) (rest : ∀ u, Silent (f u)) :
    Reaches env new s (final ((putAsset id a' >>= fun _ => releaseQuota a >>= f) s)) := by
  by_cases hlive : a.state = .available
  · refine reaches_leave hv get ⟨same, hlive, ?_, payload⟩ rest
    exact after.elim .inr fun h => .inl h.2
  · have hrest : ∀ u : Unit, Silent ((fun _ => releaseQuota a >>= f) u) := fun _ =>
      Within.bind (fun s => by rw [releaseQuota_of_ne hlive]; rfl) rest
    refine reaches_put get (.retire same ?_ ?_ payload) hrest
    · cases h : a.state <;> simp_all
    · cases h : a.state <;> simp_all

theorem admitRestore_of_ne (h : a.state ≠ .expired) : admitRestore env a s = .ok () s := by
  unfold admitRestore
  rw [if_neg h]
  rfl

/-- Admitting an expired asset again and storing it as available. -/
theorem reaches_restore (hv : s.books.Valid normPart) (get : s.reg.assets.get id = some a)
    (move : Restores a.toAssetRow a'.toAssetRow) (rest : ∀ u, Silent (f u)) :
    Reaches env new s (final ((admitRestore env a >>= fun _ => putAsset id a' >>= f) s)) := by
  obtain ⟨ha, hid⟩ := stored_valid hv get
  unfold admitRestore
  rw [if_pos move.before]
  cases henforce :
    enforceQuota env a.space a.partitionId (a.sizeBytes.getD 0) (some a.assetId) s with
  | error e s' =>
    rw [bind_of_error (bind_of_error henforce)]
    exact Reaches.of_core (Within.error (R := Same Registry.core) Within.enforceQuota henforce)
  | ok u s' =>
    obtain ⟨rfl, p, hp, hadmits⟩ := enforceQuota_eq_ok hv ha.space_mem henforce
    rw [hid] at hadmits
    rw [bind_of_ok ((bind_of_ok henforce).trans (acquireQuota_eq hv ha.space_mem hp)),
      bind_of_ok putAsset_eq]
    refine Reaches.trans (ReflTransGen.single ?_) (Reaches.of_core (rest () _))
    rw [Session.books_put]
    exact .restore (Registry.books_get get) move hp hadmits

/-- Storing a pending asset as available, and counting it in. -/
theorem commit_reaches {size : Int} {checksum : Text} (hv : s.books.Valid normPart)
    (get : s.reg.assets.get id = some a)
    (move : Commits a.toAssetRow a'.toAssetRow size checksum)
    (hp : normPart a.partitionId = some p)
    (admits : s.books.Admits env a.space a.partitionId p size (some id))
    (rest : ∀ u, Silent (f u)) :
    Books.Commit normPart env id size checksum s.books
      (final ((putAsset id a' >>= fun _ => acquireQuota a.space a.partitionId size >>= f)
        s)).books := by
  obtain ⟨ha, hid⟩ := stored_valid hv get
  have hbooks := s.books_put id a'
  have hv' : (s.put id a').books.Valid normPart := by
    rw [hbooks]
    exact hv.put (move.assetId.trans hid) (move.valid ha)
  have hstep := Books.Commit.mk (Registry.books_get get) move hp admits
  rw [← hbooks] at hstep
  rw [bind_of_ok putAsset_eq, bind_of_ok (acquireQuota_eq hv' ha.space_mem hp),
    books_of_core (rest () _)]
  exact hstep

/-- Storing the limits of a partition. -/
theorem limits_reaches (space p : Text) {q : PartitionQuota}
    (key : q.space = space ∧ q.partitionId = p)
    (usage : q.usedBytes = (s.reg.partitionAt space p).usedBytes ∧
      q.usedAssetCount = (s.reg.partitionAt space p).usedAssetCount) (rest : ∀ u, Silent (f u)) :
    Books.Limits s.books (final ((putPartitionQuota q >>= f) s)).books := by
  rw [bind_of_ok (putPartitionQuota_eq space p key), books_of_core (rest () _)]
  exact .partition key usage

/-- Storing the limits of a bucket. -/
theorem bucketLimits_reaches (space : Text) {q : BucketQuota} (key : q.space = space)
    (usage : q.usedBytes = (s.reg.bucketAt space).usedBytes) (rest : ∀ u, Silent (f u)) :
    Books.Limits s.books (final ((putBucketQuota q >>= f) s)).books := by
  rw [bind_of_ok (putBucketQuota_eq space key), books_of_core (rest () _)]
  exact .bucket key usage

/-- After the asset is read. -/
theorem reaches_getAsset {g : Asset → RegM α}
    (h : ∀ a, s.reg.assets.get id = some a → Reaches env new s (final (g a s))) :
    Reaches env new s (final ((getAsset id >>= g) s)) := by
  refine reaches_bind Within.getAsset fun a s' ha hc => ?_
  obtain ⟨get, rfl⟩ := getAsset_eq_ok.mp ha
  exact h a get

/-- After a check. -/
theorem reaches_attempt {β : Type} {x : Except Err β} {g : β → RegM α}
    (h : ∀ b, x = .ok b → Reaches env new s (final (g b s))) :
    Reaches env new s (final ((attempt x >>= g) s)) := by
  refine reaches_bind Within.attempt fun b s' hb hc => ?_
  obtain ⟨hx, rfl⟩ := attempt_eq_ok.mp hb
  exact h b hx

/-- After a clock reading. -/
theorem reaches_utcnow {g : Time → RegM α}
    (h : Reaches env new s.tick (final (g (s.clock 0) s.tick))) :
    Reaches env new s (final ((utcnow >>= g) s)) :=
  h

end Asset

/-! ### The operations -/

section Operations

variable {env : Env} {new : AssetRow → Prop} {id : Text} {a a' : Asset}

theorem addAliasToAsset_moves {key : Text} : Moves env new (addAliasToAsset id key) :=
  fun _ _ => reaches_getAsset fun _ get => reaches_utcnow <|
    put_reaches get (.note ⟨rfl, rfl, rfl, rfl, rfl, rfl, rfl⟩ rfl rfl)

theorem removeAliasFromAsset_moves {key : Text} : Moves env new (removeAliasFromAsset id key) :=
  fun _ _ => reaches_getAsset fun _ get => reaches_utcnow <|
    put_reaches get (.note ⟨rfl, rfl, rfl, rfl, rfl, rfl, rfl⟩ rfl rfl)

theorem markForGcIfOrphaned_moves {caller : Text} :
    Moves env new (markForGcIfOrphaned id caller) := by
  refine fun s hv => reaches_getAsset fun a get => ?_
  split
  · exact Reaches.of_core rfl
  · rename_i hcond
    simp only [not_or] at hcond
    refine reaches_utcnow (reaches_utcnow ?_)
    exact reaches_retire hv get ⟨rfl, rfl, rfl, rfl, rfl, rfl,
      rfl⟩ rfl (.inr ⟨hcond.2.1, rfl⟩) hcond.2.2
      fun _ => Silent.audit

theorem attachAlias_moves {name caller : Text} {mutable : Bool} :
    Moves env new (attachAlias id name mutable caller) :=
  Moves.bind (.silent Within.getAsset) fun _ =>
  Moves.bind (.silent Within.attempt) fun _ =>
  Moves.bind (.silent Within.attempt) fun _ =>
  Moves.bind (.silent Within.attempt) fun _ =>
  Moves.bind (.silent Silent.requireAliasNameAvailable) fun _ =>
  Moves.bind (.silent Within.attempt) fun _ =>
  Moves.bind (.silent Within.utcnow) fun _ =>
  Moves.bind (.silent Silent.putBinding) fun _ =>
  Moves.bind addAliasToAsset_moves fun _ =>
  Moves.bind (.silent Silent.audit) fun _ => (.silent Within.pure)

theorem updateAnnotations_moves {patch : Mapping} {caller : Text} {overwrite : Bool} :
    Moves env new (updateAnnotations id patch caller overwrite) := fun _ _ =>
  reaches_getAsset fun _ get => reaches_attempt fun _ _ => reaches_utcnow <|
    reaches_put get (.note ⟨rfl, rfl, rfl, rfl, rfl, rfl, rfl⟩ rfl rfl) fun _ =>
      Within.bind Within.utcnow fun _ => Within.bind (Within.updateTables fun _ => rfl) fun _ =>
        Within.pure

theorem detachAlias_moves {space name caller : Text} :
    Moves env new (detachAlias space name caller) :=
  Moves.bind (.silent Within.getBinding) fun _ =>
  Moves.bind (.silent Within.attempt) fun _ =>
  Moves.bind (.silent Within.attempt) fun _ =>
  Moves.bind (.silent Within.attempt) fun _ =>
  Moves.bind (.silent (Within.updateTables fun _ => rfl)) fun _ =>
  Moves.bind removeAliasFromAsset_moves fun _ =>
  Moves.bind (.silent Silent.buryName) fun _ =>
  Moves.bind (.silent Silent.audit) fun _ => markForGcIfOrphaned_moves

theorem detachMutableAlias_moves {space name caller : Text} :
    Moves env new (detachMutableAlias space name caller) :=
  Moves.bind (.silent Within.getBinding) fun _ =>
  Moves.bind (.silent Within.attempt) fun _ =>
  Moves.bind (.silent Within.attempt) fun _ =>
  Moves.bind (.silent Within.attempt) fun _ =>
  Moves.bind removeAliasFromAsset_moves fun _ =>
  Moves.bind (.silent Within.utcnow) fun _ =>
  Moves.bind (.silent Silent.putBinding) fun _ =>
  Moves.bind (.silent Silent.audit) fun _ =>
  Moves.bind markForGcIfOrphaned_moves fun _ => (.silent Within.pure)

theorem rebindAlias_moves {space name newId caller : Text} :
    Moves env new (rebindAlias space name newId caller) :=
  Moves.bind (.silent Within.getBinding) fun _ =>
  Moves.bind (.silent Within.attempt) fun _ =>
  Moves.bind (.silent Within.attempt) fun _ =>
  Moves.bind (.silent Within.getAsset) fun _ =>
  Moves.bind (.silent Within.attempt) fun _ =>
  Moves.bind (.silent Within.attempt) fun _ =>
  Moves.bind (.silent Within.attempt) fun _ =>
  Moves.bind (.silent Within.attempt) fun _ =>
  Moves.bind (.silent Within.attempt) fun _ =>
  Moves.bind (.silent Within.utcnow) fun _ =>
  Moves.bind (.silent Silent.putBinding) fun _ =>
  Moves.bind addAliasToAsset_moves fun _ =>
  Moves.bind (.silent Silent.audit) fun _ => (.silent Within.pure)

theorem expireAsset_moves {caller : Text} : Moves env new (expireAsset id caller) := by
  refine fun s hv => reaches_getAsset fun a get => reaches_attempt fun _ hstate =>
    reaches_utcnow (reaches_utcnow ?_)
  have hstate : a.state = .available := by simpa using hstate
  exact reaches_retire hv get ⟨rfl, rfl, rfl, rfl, rfl, rfl, rfl⟩ rfl (.inr ⟨by simp [hstate], rfl⟩)
    (by simp [hstate]) fun _ => Within.bind Silent.audit fun _ => Within.pure

theorem deleteAsset_moves {caller : Text} : Moves env new (deleteAsset id caller) := by
  refine fun s hv => reaches_getAsset fun a get => reaches_attempt fun _ hstate =>
    reaches_utcnow ?_
  have hstate : a.state ≠ .deleted := by
    intro e
    simp [e] at hstate
  exact reaches_retire hv get ⟨rfl, rfl, rfl, rfl, rfl, rfl, rfl⟩ rfl (.inl rfl) hstate
    fun _ => Within.bind Silent.audit fun _ => Within.pure

theorem setEvictionPolicy_moves {policy : EvictionPolicy} {caller : Text} :
    Moves env new (setEvictionPolicy id policy caller) := fun _ _ =>
  reaches_getAsset fun _ get => reaches_attempt fun _ _ => reaches_utcnow <|
    reaches_put get (.note ⟨rfl, rfl, rfl, rfl, rfl, rfl, rfl⟩ rfl rfl) fun _ =>
      Within.bind Silent.audit fun _ => Within.pure

theorem recordRead_moves : Moves env new (recordRead id) := by
  refine fun s hv => reaches_getAsset fun a get => ?_
  split
  · exact reaches_utcnow (put_reaches get (.note ⟨rfl, rfl, rfl, rfl, rfl, rfl, rfl⟩ rfl rfl))
  · exact Reaches.of_core rfl

theorem lifecycleUpdate_moves {a : Asset} {state : AssetState} {now : Time} {reason : Text}
    {payloadDeleted : Bool} :
    Moves env new (lifecycleUpdate a state now reason payloadDeleted) := by
  refine fun s hv => reaches_getAsset fun current get => reaches_attempt fun _ hsame =>
    reaches_attempt fun _ hallowed => ?_
  obtain rfl : current = a := by simpa using hsame
  obtain ⟨hallowed, hpayload⟩ := validateCleanupTransition_eq_ok.mp hallowed
  rcases hallowed with ⟨rfl, hstate, rfl⟩ | ⟨rfl, hstate, hpurge⟩
  · exact reaches_release hv get ⟨⟨rfl, rfl, rfl, rfl, rfl, rfl, rfl⟩, hstate, .inl rfl, rfl⟩
      fun _ => Within.bind Silent.audit fun _ => Within.pure
  · have hlive : current.state ≠ .available := by rcases hstate with e | e | e <;> simp [e]
    rw [bind_of_ok (releaseQuota_of_ne hlive)]
    refine reaches_put get ?_ fun _ => Within.bind Silent.audit fun _ => Within.pure
    rcases hpurge with rfl | hdeleted
    · by_cases hdel : current.state = .deleted
      · exact .note ⟨rfl, rfl, rfl, rfl, rfl, rfl, rfl⟩ hdel.symm rfl
      · refine .retire ⟨rfl, rfl, rfl, rfl, rfl, rfl, rfl⟩ ?_ (.inl rfl) rfl
        exact hstate.imp_right fun h => h.resolve_right hdel
    · exact .purge ⟨rfl, rfl, rfl, rfl, rfl, rfl, rfl⟩ hdeleted rfl hpayload

theorem setAssetTtl_moves {ttl : Int} {caller : Text} :
    Moves env new (setAssetTtl env id ttl caller) := by
  refine fun s hv => reaches_getAsset fun a get => reaches_attempt fun _ hstate =>
    reaches_attempt fun _ hcommitted => reaches_utcnow (reaches_attempt fun deadline _ => ?_)
  simp only [raiseIf_eq_ok, not_and_or, not_not, ne_eq, not_or] at hstate hcommitted
  by_cases hexp : a.state = .expired
  · exact reaches_restore hv get ⟨⟨rfl, rfl, rfl, rfl, rfl, rfl, rfl⟩, hexp, rfl, hcommitted, rfl⟩
      fun _ => Within.bind Silent.audit fun _ => Within.pure
  · have hlive : a.state = .available := hstate.resolve_right hexp
    rw [bind_of_ok (admitRestore_of_ne hexp)]
    exact reaches_put get (.note ⟨rfl, rfl, rfl, rfl, rfl, rfl, rfl⟩ hlive.symm rfl)
      fun _ => Within.bind Silent.audit fun _ => Within.pure

/-! #### Reservations -/

/-- The row that a reservation creates. -/
def Reserved (newId : Text) (req : ReserveRequest) (a : AssetRow) : Prop :=
  a.assetId = newId ∧ normalizeSpace req.space = .ok a.space ∧
    normalizePartitionId req.partitionId = .ok a.partitionId ∧
    buildStorageKey a.partitionId newId = .ok a.storageKey ∧ a.reservedBytes = req.reservedBytes

theorem admitReservation_eq_ok {space pid : Text} {reserved : Option Int} {u : Unit}
    {s s' : Session}
    (hv : s.books.Valid normPart) (hs : space ∈ storageBuckets)
    (h : admitReservation env space pid reserved s = .ok u s') :
    s' = s ∧ ∀ n ∈ reserved, 0 ≤ n ∧
      ∃ p, normPart pid = some p ∧ s.books.Admits env space pid p n none := by
  cases reserved with
  | none => exact ⟨(pure_eq_ok.mp h).2.symm, by simp⟩
  | some n =>
    simp only [admitReservation, bind_eq_ok, attempt_eq_ok, raiseIf_eq_ok, not_lt] at h
    obtain ⟨_, _, ⟨hn, rfl⟩, h⟩ := h
    obtain ⟨rfl, hadmits⟩ := enforceQuota_eq_ok hv hs h
    refine ⟨rfl, fun m hm => ?_⟩
    obtain rfl : n = m := by simpa using hm
    exact ⟨hn, hadmits⟩

theorem buildStorageKey_known {pid id key : Text} (h : buildStorageKey pid id = .ok key) :
    ∃ p, normPart pid = some p := by
  simp only [buildStorageKey, except_bind_eq_ok] at h
  obtain ⟨p, hp, _⟩ := h
  exact ⟨p, normPart_eq_some.mpr hp⟩

theorem reserveAsset_moves {newId : Text} {req : ReserveRequest} {s : Session}
    (hv : s.books.Valid normPart) (fresh : s.reg.assets.get newId = none) :
    Reaches env (Reserved newId req) s (final (reserveAsset env newId req s)) := by
  refine reaches_attempt fun space hspace => reaches_attempt fun pid hpid =>
    reaches_attempt fun specs _ => ?_
  refine reaches_bind (Silent.requireNamesAvailable _) fun _ s1 _ hc1 => ?_
  have hmem : space ∈ storageBuckets := (normalizeBucket_eq_ok.mp hspace).2
  have hv1 : s1.books.Valid normPart := by rwa [books_of_core hc1]
  refine reaches_bind (Within.admitReservation _) fun _ s2 hadmit hc2 => ?_
  obtain ⟨rfl, hadmitted⟩ := admitReservation_eq_ok hv1 hmem hadmit
  refine reaches_utcnow (reaches_attempt fun keys _ => reaches_attempt fun storageKey hkey =>
    reaches_attempt fun expiresAt _ => ?_)
  rw [bind_of_ok putAsset_eq]
  refine Reaches.trans (ReflTransGen.single ?_)
    (Reaches.of_core (Within.bind (Silent.bindNames _) (fun _ => Within.bind
      (Silent.auditReservation _) fun _ => Within.pure) _))
  rw [Session.books_put]
  have hnone : s2.tick.books.rows.get newId = none := by
    simp [Registry.books, get_of_core hc1, fresh]
  refine .reserve hnone rfl ⟨hmem, buildStorageKey_known hkey, by
    simp, fun n hn => (hadmitted n hn).1,
    by simp, by simp, by simp⟩ rfl rfl ⟨rfl, hspace, hpid, hkey, rfl⟩ fun n hn => ?_
  exact (hadmitted n hn).2

/-! #### Commits and limits -/

/-- Either nothing happened to the books, or the commit of the asset `id`. -/
def CommitsOr (env : Env) (id : Text) (size : Int) (checksum : Text) (s s' : Session) : Prop :=
  s'.reg.core = s.reg.core ∨ Books.Commit normPart env id size checksum s.books s'.books

theorem commitAsset_moves {size : Int} {checksum caller : Text} {mime expected : Option Text}
    {s : Session} (hv : s.books.Valid normPart) :
    CommitsOr env id size (stripSpace checksum) s
      (final (commitAsset env id size checksum caller mime expected s)) := by
  unfold commitAsset
  refine Keeps.final_bind Within.attempt (fun _ => .inl) fun _ s1 h1 _ => ?_
  obtain ⟨hsize, rfl⟩ := attempt_eq_ok.mp h1
  refine Keeps.final_bind Within.attempt (fun _ => .inl) fun _ s1 h2 _ => ?_
  obtain ⟨_, rfl⟩ := attempt_eq_ok.mp h2
  refine Keeps.final_bind Within.attempt (fun _ => .inl) fun _ s1 h3 _ => ?_
  obtain ⟨_, rfl⟩ := attempt_eq_ok.mp h3
  refine Keeps.final_bind Within.getAsset (fun _ => .inl) fun a s1 h4 _ => ?_
  obtain ⟨get, rfl⟩ := getAsset_eq_ok.mp h4
  refine Keeps.final_bind Within.attempt (fun _ => .inl) fun _ s1 h5 _ => ?_
  obtain ⟨hstate, rfl⟩ := attempt_eq_ok.mp h5
  refine Keeps.final_bind Within.attempt (fun _ => .inl) fun _ s1 h6 _ => ?_
  obtain ⟨hreserved, rfl⟩ := attempt_eq_ok.mp h6
  obtain ⟨ha, hid⟩ := stored_valid hv get
  refine Keeps.final_bind Within.enforceQuota (fun _ => .inl) fun _ s1 h7 _ => ?_
  obtain ⟨rfl, p, hp, hadmits⟩ := enforceQuota_eq_ok hv ha.space_mem h7
  simp only [raiseIf_eq_ok, not_lt, ne_eq, not_not, not_exists, not_and] at hsize hstate hreserved
  -- past the checks nothing raises: the asset is stored, counted in and audited
  rw [bind_of_ok utcnow_eq]
  have hv1 : s1.tick.books.Valid normPart := hv
  have get1 : s1.tick.reg.assets.get id = some a := get
  have hadmits1 : s1.tick.books.Admits env a.space a.partitionId p size (some id) := hadmits
  refine Or.inr ?_
  change Books.Commit normPart env id size (stripSpace checksum) s1.tick.books _
  refine commit_reaches hv1 get1 ?_ hp hadmits1 ?_
  · exact ⟨rfl, rfl, rfl, rfl, hstate, rfl, hsize, fun n hn => hreserved n hn, rfl, rfl, rfl, rfl⟩
  · exact fun _ => Within.bind Silent.audit fun _ => Within.pure

/-- Either nothing happened to the books, or a change of limits. -/
def LimitsOr (s s' : Session) : Prop := s'.reg.core = s.reg.core ∨ Books.Limits s.books s'.books

theorem setPartitionQuota_moves {space pid caller : Text} {bytes count : Option Int}
    {sweep : Option Bool} {s : Session} (hv : s.books.Valid normPart) :
    LimitsOr s (final (setPartitionQuota space pid bytes count sweep caller s)) := by
  unfold setPartitionQuota
  refine Keeps.final_bind Within.attempt (fun _ => .inl) fun _ s1 h1 _ => ?_
  obtain ⟨_, rfl⟩ := attempt_eq_ok.mp h1
  refine Keeps.final_bind Within.attempt (fun _ => .inl) fun _ s1 h2 _ => ?_
  obtain ⟨_, rfl⟩ := attempt_eq_ok.mp h2
  refine Keeps.final_bind Within.partitionQuota (fun _ => .inl) fun q s1 h3 _ => ?_
  simp only [partitionQuota, bind_eq_ok, attempt_eq_ok, tables_eq_ok, pure_eq_ok] at h3
  obtain ⟨space', _, ⟨_, rfl⟩, p, _, ⟨_, rfl⟩, _, _, ⟨rfl, rfl⟩, rfl, rfl⟩ := h3
  refine .inr (limits_reaches space' p ?_ ⟨rfl, rfl⟩ fun _ =>
    Within.bind Silent.audit fun _ => Within.pure)
  exact Books.partitionAt_key hv space' p

theorem setBucketQuota_moves {space : Text} {bytes : Option Int} {warn hard : Rat} {s : Session}
    (hv : s.books.Valid normPart) :
    LimitsOr s (final (setBucketQuota space bytes warn hard s)) := by
  unfold setBucketQuota
  refine Keeps.final_bind Within.attempt (fun _ => .inl) fun _ s1 h1 _ => ?_
  obtain ⟨_, rfl⟩ := attempt_eq_ok.mp h1
  refine Keeps.final_bind Within.bucketQuota (fun _ => .inl) fun q s1 h2 _ => ?_
  simp only [bucketQuota, bind_eq_ok, attempt_eq_ok, tables_eq_ok, pure_eq_ok] at h2
  obtain ⟨space', _, ⟨_, rfl⟩, _, _, ⟨rfl, rfl⟩, rfl, rfl⟩ := h2
  refine .inr (bucketLimits_reaches space' ?_ rfl fun _ => Within.pure)
  exact Books.bucketAt_key hv space'

end Operations

end AssetStore
