import AssetStore.Lib.Keyset
import AssetStore.Lib.Lockstep
import AssetStore.Postgres.Mirror

/-! Each operation on both registries, at one instant of the clock. Both return the same value and
the database mirrors the registry again, or both raise errors of one class, and the tables that the
rollback restores still mirror the registry. -/

namespace AssetStore.Postgres

open Lib

/-- The in-memory registry while the clock shows `now`. -/
abbrev inMemory (now : Time) (r : Registry) : Session := ⟨r, fun _ => now⟩

/-- A unit of work while the clock shows `now`. -/
abbrev inUnit (now : Time) (grace : Int) (db : Database) : UnitOfWork := ⟨db, grace, fun _ => now⟩

/-- The outcomes agree. After an error the registry is mirrored by `origin`, the tables before the
call. -/
def Agrees {α β : Type} (now : Time) (grace : Int) (origin : Database) (R : α → β → Prop) :
    EStateM.Result Err Session α → EStateM.Result Failure UnitOfWork β → Prop :=
  Agree
    (fun a b s t => R a b ∧ ∃ r db, s = inMemory now r ∧ t = inUnit now grace db ∧
      Mirrors now grace r db)
    (fun e e' s _ => (∃ d, e' = .domain d ∧ e.cls = d.cls) ∧ ∃ r, s = inMemory now r ∧
      Mirrors now grace r origin)

namespace Agrees

variable {α α' β β' : Type} {now : Time} {grace : Int} {origin db : Database} {r : Registry}
  {R : α → β → Prop}
  {id : Text} {e e' : Err} {f : α' → RegM α} {g : β' → SqlM β}

theorem returned {a : α} {b : β} (hR : R a b) (h : Mirrors now grace r db) :
    Agrees now grace origin R (.ok a (inMemory now r)) (.ok b (inUnit now grace db)) :=
  Agree.returned ⟨hR, r, db, rfl, rfl, h⟩

theorem raised {t : UnitOfWork} (hcls : e.cls = e'.cls) (h : Mirrors now grace r origin) :
    Agrees now grace origin R (.error e (inMemory now r)) (.error (.domain e') t) :=
  Agree.raised ⟨⟨e', rfl, hcls⟩, r, rfl, h⟩

theorem left {x : RegM α'} {s s' : Session} {a : α'} {y : EStateM.Result Failure UnitOfWork β}
    (step : x s = .ok a s') (rest : Agrees now grace origin R (f a s') y) :
    Agrees now grace origin R ((x >>= f) s) y :=
  Agree.left step rest

theorem right {y : SqlM β'} {t t' : UnitOfWork} {b : β'} {x : EStateM.Result Err Session α}
    (step : y t = .ok b t') (rest : Agrees now grace origin R x (g b t')) :
    Agrees now grace origin R x ((y >>= g) t) :=
  Agree.right step rest

/-- The same step on both sides, and what follows it. -/
theorem bind {S : α' → β' → Prop} {x : RegM α'} {y : SqlM β'} {s : Session} {t : UnitOfWork}
    (first : Agrees now grace origin S (x s) (y t))
    (rest : ∀ a b r db, S a b → Mirrors now grace r db →
      Agrees now grace origin R (f a (inMemory now r)) (g b (inUnit now grace db))) :
    Agrees now grace origin R ((x >>= f) s) ((y >>= g) t) := by
  refine Agree.bind first fun a b s' t' hok => ?_
  obtain ⟨hS, r, db, rfl, rfl, h⟩ := hok
  exact rest a b r db hS h

/-- The rollback of an error does not concern a call that returns. -/
theorem transactional {m : SqlM β} {t : UnitOfWork} {x : EStateM.Result Err Session α}
    (h : Agrees now grace origin R x (m t)) : Agrees now grace origin R x (transactional m t) := by
  unfold Postgres.transactional
  cases hm : m t with
  | ok b t' =>
    rw [hm] at h
    exact h
  | error e t' =>
    rw [hm] at h
    cases h with
    | raised h => exact Agree.raised h

/-- Code without state that returns the same on both sides, or raises errors of one class. -/
theorem code {x : Except Err α'} {y : Except Err α'} {f : α' → RegM α} {g : α' → SqlM β}
    {t : UnitOfWork}
    (h0 : Mirrors now grace r origin) (same : ∀ a, x = .ok a ↔ y = .ok a)
    (errors : ∀ e e', x = .error e → y = .error e' → e.cls = e'.cls)
    (rest : ∀ a, x = .ok a → Agrees now grace origin R (f a (inMemory now r)) (g a t)) :
    Agrees now grace origin R ((attempt x >>= f) (inMemory now r)) ((pureCode y >>= g) t) := by
  cases hx : x with
  | ok a =>
    obtain rfl : y = .ok a := (same a).mp hx
    exact left rfl (right rfl (rest a hx))
  | error e =>
    cases hy : y with
    | ok a => cases hx.symm.trans ((same a).mpr hy)
    | error e' => exact raised (errors e e' hx hy) h0

theorem sameCode {x : Except Err α'} {f : α' → RegM α} {g : α' → SqlM β} {t : UnitOfWork}
    (h0 : Mirrors now grace r origin)
    (rest : ∀ a, x = .ok a → Agrees now grace origin R (f a (inMemory now r)) (g a t)) :
    Agrees now grace origin R ((attempt x >>= f) (inMemory now r)) ((pureCode x >>= g) t) :=
  code h0 (fun _ => Iff.rfl) (fun _ _ hx hy => by rw [Except.error.inj (hx.symm.trans hy)]) rest

/-- The same check on both sides. -/
theorem check {c d : Prop} [Decidable c] [Decidable d] {f : Unit → RegM α} {g : Unit → SqlM β}
    {t : UnitOfWork}
    (hc : c ↔ d) (hcls : e.cls = e'.cls) (h0 : Mirrors now grace r origin)
    (rest : ¬d → Agrees now grace origin R (f () (inMemory now r)) (g () t)) :
    Agrees now grace origin R ((attempt (raiseIf c e) >>= f) (inMemory now r))
      ((pureCode (raiseIf d e') >>= g) t) := by
  refine code h0 (fun _ => ?_) (fun x x' hx hx' => ?_) fun _ hok =>
    rest (hc.not.mp (raiseIf_eq_ok.mp hok))
  · rw [raiseIf_eq_ok, raiseIf_eq_ok, hc]
  · rw [← (raiseIf_eq_error.mp hx).2, ← (raiseIf_eq_error.mp hx').2, hcls]

/-- Both sides refuse for the same reason. -/
theorem refused {x : Except Err α'} {y : Except Err β'} {t : UnitOfWork} (hx : x = .error e)
    (hy : y = .error e')
    (hcls : e.cls = e'.cls) (h0 : Mirrors now grace r origin) :
    Agrees now grace origin R ((attempt x >>= f) (inMemory now r)) ((pureCode y >>= g) t) := by
  subst hx hy
  exact raised hcls h0

/-- Both sides go on. -/
theorem passed {x : Except Err α'} {y : Except Err β'} {a : α'} {b : β'} {s : Session}
    {t : UnitOfWork}
    (hx : x = .ok a) (hy : y = .ok b) (rest : Agrees now grace origin R (f a s) (g b t)) :
    Agrees now grace origin R ((attempt x >>= f) s) ((pureCode y >>= g) t) := by
  subst hx hy
  exact left rfl (right rfl rest)

/-- A lookup that finds the same on both sides, up to `φ`. -/
theorem required {γ : Type} {φ : γ → α'} {o : Option α'} {o' : Option γ} {f : α' → RegM α}
    {g : γ → SqlM β}
    {t : UnitOfWork} (ho : o = o'.map φ) (hcls : e.cls = e'.cls) (h0 : Mirrors now grace r origin)
    (rest : ∀ c, o' = some c → Agrees now grace origin R (f (φ c) (inMemory now r)) (g c t)) :
    Agrees now grace origin R ((attempt (someOr o e) >>= f) (inMemory now r))
      ((pureCode (someOr o' e') >>= g) t) := by
  subst ho
  cases o' with
  | none => exact raised hcls h0
  | some c => exact left rfl (right rfl (rest c rfl))

/-- An asset and its row. -/
theorem lookup {f : Asset → RegM α} {g : AssetRow → SqlM β} (h : Mirrors now grace r db)
    (h0 : Mirrors now grace r origin)
    (rest : ∀ row, db.assets.get id = some row → Agrees now grace origin R
      (f (db.assetFromRow row) (inMemory now r)) (g row (inUnit now grace db))) :
    Agrees now grace origin R ((AssetStore.getAsset id >>= f) (inMemory now r))
      ((selectForUpdate id >>= g) (inUnit now grace db)) :=
  required (h.get id) rfl h0 rest

/-- An asset that is read with its aliases. -/
theorem load {f : Asset → RegM α} {g : Asset → SqlM β} (h : Mirrors now grace r db)
    (h0 : Mirrors now grace r origin)
    (rest : ∀ row, db.assets.get id = some row → Agrees now grace origin R
      (f (db.assetFromRow row) (inMemory now r)) (g (db.assetFromRow row) (inUnit now grace db))) :
    Agrees now grace origin R ((AssetStore.getAsset id >>= f) (inMemory now r))
      ((loadAsset id >>= g) (inUnit now grace db)) := by
  have hload : loadAsset id >>= g = selectForUpdate id >>=
      fun row => (select fun db => db.assetFromRow row) >>= g := by
    simp only [loadAsset, selectForUpdate, bind_assoc]
  rw [hload]
  exact lookup h h0 fun row get => right rfl (rest row get)

/-- A call that returns the asset it has stored. -/
theorem reload {a : Asset} (h : Mirrors now grace r db) (get : r.assets.get id = some a) :
    Agrees now grace origin Eq ((pure a : RegM Asset) (inMemory now r))
      (loadAsset id (inUnit now grace db)) := by
  rw [h.get] at get
  obtain ⟨row, hrow, rfl⟩ := Option.map_eq_some_iff.mp get
  have hload : loadAsset id (inUnit now grace db) =
      .ok (db.assetFromRow row) (inUnit now grace db) := by
    change ((pureCode (someOr (db.assets.get id) _) : SqlM AssetRow) >>= _)
      (inUnit now grace db) = _
    rw [hrow]
    rfl
  rw [hload]
  exact returned rfl h

end Agrees

/-! ### Quotas -/

section Quotas

variable {α β : Type} {now : Time} {grace : Int} {origin db : Database} {r : Registry}
  {R : α → β → Prop} {env : Env}
  {id caller space pid : Text} {row : AssetRow} {a : Asset} {n : Int} {exclude : Option Text}
  {f : Unit → RegM α}
  {g : Unit → SqlM β}

theorem updateAsset_eq (get : db.assets.get id = some row) (u : AssetRow → AssetRow) :
    updateAsset id u (inUnit now grace db) =
      .ok () (inUnit now grace { db with assets := db.assets.set id (u row) }) := by
  change EStateM.Result.ok () (inUnit now grace (db.updateAsset id u)) = _
  rw [Database.updateAsset, get]
  rfl

/-- The quota partition of a fixed path is the path. -/
theorem normPart_of_fixed (h : Fixed pid) : normPart pid = some pid := normPart_eq_some.mpr h

theorem RowFormed.sized_getD (h : RowFormed row) : 0 ≤ row.sizeBytes.getD 0 := by
  cases hn : row.sizeBytes with
  | none => simp
  | some n => exact h.sized n hn

/-- An asset that leaves the available state is counted out. -/
theorem Agrees.release (h : Mirrors now grace r db) (formed : RowFormed a.toAssetRow)
    (rest : ∀ r' db', Mirrors now grace r' db' → r'.assets = r.assets → db'.assets = db.assets →
      db'.aliases = db.aliases →
      Agrees now grace origin R (f () (inMemory now r')) (g () (inUnit now grace db'))) :
    Agrees now grace origin R ((AssetStore.releaseQuota a >>= f) (inMemory now r))
      (((if a.state = .available then releaseQuota a.space a.partitionId (a.sizeBytes.getD 0)
        else pure ()) >>= g)
        (inUnit now grace db)) := by
  by_cases hstate : a.state = .available
  · rw [if_pos hstate]
    have hrun := releaseQuota_run (s := inMemory now r) formed.space
      (normPart_of_fixed formed.partition) hstate
      (by rw [h.partitions]; exact h.formed.partitionAt_key _ _)
        (by rw [h.buckets]; exact h.formed.bucketAt_key _)
    exact .left hrun (.right (releaseQuota_eq _ _ _ _)
      (rest _ _ (h.release a.space a.partitionId formed.sized_getD) rfl rfl rfl))
  · rw [if_neg hstate]
    exact .left (releaseQuota_of_ne hstate) (.right rfl (rest r db h rfl rfl rfl))

theorem acquireQuota_inMemory (h : Mirrors now grace r db) (hspace : space ∈ storageBuckets)
    (hpid : Fixed pid) :
    AssetStore.acquireQuota space pid n (inMemory now r) =
      .ok () (inMemory now (r.withUsage (r.books.acquire space pid n))) := by
  refine (bind_of_ok (partitionQuota_eq hspace (normPart_of_fixed hpid))).trans ?_
  refine (bind_of_ok (putPartitionQuota_eq space pid ?_)).trans ?_
  · change (r.partitionAt space pid).space = space ∧ (r.partitionAt space pid).partitionId = pid
    rw [h.partitions]
    exact h.formed.partitionAt_key _ _
  · refine (bind_of_ok (bucketQuota_eq hspace)).trans (putBucketQuota_eq space ?_)
    change (r.bucketAt space).space = space
    rw [h.buckets]
    exact h.formed.bucketAt_key _

/-- An asset that becomes available is counted in. -/
theorem Agrees.acquire (h : Mirrors now grace r db) (hspace : space ∈ storageBuckets)
    (hpid : Fixed pid)
    (rest : ∀ r' db', Mirrors now grace r' db' → r'.assets = r.assets → db'.assets = db.assets →
      db'.aliases = db.aliases →
      Agrees now grace origin R (f () (inMemory now r')) (g () (inUnit now grace db'))) :
    Agrees now grace origin R ((AssetStore.acquireQuota space pid n >>= f) (inMemory now r))
      ((acquireQuota space pid n >>= g) (inUnit now grace db)) :=
  .left (acquireQuota_inMemory h hspace hpid) (.right (acquireQuota_eq _ _ _ _)
    (rest _ _ (h.acquire space pid n) rfl rfl rfl))

theorem Mirrors.sizedPending (h : Mirrors now grace r db) (space : Text) (exclude : Option Text) :
    r.sizedPending space exclude = (db.sizedPending space exclude).map db.assetFromRow := by
  simp only [Registry.sizedPending, Database.sizedPending, h.assets, Dict.values_map,
    List.filter_map]
  rfl

theorem Mirrors.physicalBytes (h : Mirrors now grace r db) (space : Text) (exclude : Option Text) :
    r.physicalBytes space exclude = db.physicalBytes space exclude := by
  simp only [Registry.physicalBytes, Database.physicalBytes, h.assets, Dict.values_map,
    List.filter_map, List.map_map]
  rfl

/-- The admission checks come to the same, though the one side stores default rows first. -/
theorem Agrees.enforce (h : Mirrors now grace r db) (h0 : Mirrors now grace r origin)
    (hspace : space ∈ storageBuckets)
    (hpid : Fixed pid)
    (rest : ∀ db', Mirrors now grace r db' → db'.assets = db.assets → db'.aliases = db.aliases →
      Agrees now grace origin R (f () (inMemory now r)) (g () (inUnit now grace db'))) :
    Agrees now grace origin R ((AssetStore.enforceQuota env space pid n exclude >>= f)
      (inMemory now r))
      ((enforceQuota env space pid n exclude >>= g) (inUnit now grace db)) := by
  have h1 := (h.touchPartition space pid).touchBucket space
  simp only [AssetStore.enforceQuota, enforceQuota, partitionQuota, bucketQuota,
    if_true, bind_assoc]
  refine .left rfl (.left (partitionQuota_eq hspace (normPart_of_fixed hpid)) ?_)
  refine .right rfl (.right rfl (.right rfl (.right rfl (.right rfl ?_))))
  have hreserved : ∀ l : List AssetRow, AssetStore.sumReserved (l.map db.assetFromRow) =
      sumReserved l := fun l => by
    simp only [AssetStore.sumReserved, sumReserved, List.map_map]
    rfl
  have hpartition :
      ∀ l : List AssetRow, (l.map db.assetFromRow).filter (fun a => a.partitionId = pid) =
      (l.filter fun row => row.partitionId = pid).map db.assetFromRow := fun l => by
    rw [List.filter_map]
    rfl
  have hpq := (h.touchPartition space pid).partitions space pid
  have hbq := h1.buckets space
  simp only [h.sizedPending, hpartition, hreserved, List.length_map, hpq]
  refine .check Iff.rfl rfl h0 fun _ => .check Iff.rfl rfl h0 fun _ =>
    .sameCode h0 fun limits _ => ?_
  have hbucket : Agrees now grace origin R
      ((AssetStore.bucketQuota space >>= fun bq => attempt (raiseIf (∃ q ∈ bq.quotaBytes,
          (q : Rat) * bq.hardCeiling ≤ (bq.usedBytes +
            sumReserved (db.sizedPending space exclude) + n : Int))
        { cls := .quotaExceeded .bucket, message := "bucket quota exceeded for %s",
          args := [bq.space] }) >>= f)
        (inMemory now r))
      ((pureCode (raiseIf (∃ q ∈
        (((db.touchPartition space pid).touchBucket space).bucketAt space).quotaBytes,
          (q : Rat) * (((db.touchPartition space pid).touchBucket space).bucketAt
            space).hardCeiling ≤
            ((((db.touchPartition space pid).touchBucket space).bucketAt space).usedBytes +
              sumReserved (db.sizedPending space exclude) + n : Int))
        { cls := .quotaExceeded .bucket, message := "bucket quota exceeded for %s"
          args := [(((db.touchPartition space pid).touchBucket space).bucketAt space).space] }) >>=
            g)
        (inUnit now grace ((db.touchPartition space pid).touchBucket space))) := by
    refine .left (bucketQuota_eq hspace) (.check ?_ rfl h0 fun _ => rest _ h1 rfl rfl)
    rw [← hbq]
  by_cases hlimit : (limits.lookup space).isSome
  · rw [if_pos hlimit, if_pos hlimit, h.physicalBytes]
    simp only [bind_assoc]
    exact .right rfl (.sameCode h0 fun _ _ => hbucket)
  · rw [if_neg hlimit, if_neg hlimit]
    exact .left rfl (.right rfl hbucket)

end Quotas

/-! ### Records and transitions -/

section Records

variable {now : Time} {grace : Int} {db : Database} {r : Registry} {env : Env} {id caller : Text}

theorem recordCapabilityIssue_agrees {operation scopePrefix outcome : Text} {ttl : Int}
    {capabilityId : Option Text}
    (h : Mirrors now grace r db) :
    Agrees now grace db Eq
      (AssetStore.recordCapabilityIssue env caller operation scopePrefix ttl outcome capabilityId
        (inMemory now r))
      (recordCapabilityIssue env caller operation scopePrefix ttl outcome capabilityId
        (inUnit now grace db)) :=
  .transactional (.returned rfl (h.log _))

theorem expireAsset_agrees (h : Mirrors now grace r db) :
    Agrees now grace db Eq (AssetStore.expireAsset id caller (inMemory now r))
      (expireAsset id caller (inUnit now grace db)) := by
  refine .transactional (.right rfl (.lookup h h fun row get => ?_))
  have hformed := h.formed.row_formed _ _ get
  refine .check (d := row.state ∉ [AssetState.available])
    (by simp [Database.assetFromRow]) rfl h fun hstate => ?_
  refine .left rfl (.left rfl (.left rfl (.right (updateAsset_eq get _) ?_)))
  have same :
      SameAsset row { row with state := .expired, updatedAt := now, expiredAt := some now } :=
    ⟨rfl, rfl, rfl, hformed.sized⟩
  have hset := h.setRow get same
  refine .release (a := db.assetFromRow row) hset hformed fun r' db' h' hassets _ _ => ?_
  refine .left rfl (.right rfl (.reload (h'.log _) ?_))
  exact (congrArg (fun d : Dict Text Asset => d.get id) hassets).trans (Dict.get_set_self _ _ _)

theorem deleteAsset_agrees (h : Mirrors now grace r db) :
    Agrees now grace db Eq (AssetStore.deleteAsset id caller (inMemory now r))
      (deleteAsset id caller (inUnit now grace db)) := by
  refine .transactional (.right rfl (.lookup h h fun row get => ?_))
  have hformed := h.formed.row_formed _ _ get
  refine .check (d := row.state ∉ [AssetState.available, .expired])
    (by simp [Database.assetFromRow]) rfl h
    fun hstate => ?_
  refine .left rfl (.left rfl (.right (updateAsset_eq get _) ?_))
  have same : SameAsset row { row with state := .deleted, updatedAt := now } :=
    ⟨rfl, rfl, rfl, hformed.sized⟩
  have hset := h.setRow get same
  refine .release (a := db.assetFromRow row) hset hformed fun r' db' h' hassets _ _ => ?_
  refine .left rfl (.right rfl (.reload (h'.log _) ?_))
  exact (congrArg (fun d : Dict Text Asset => d.get id) hassets).trans (Dict.get_set_self _ _ _)

theorem commitAsset_agrees {size : Int} {checksum : Text} {mime expected : Option Text}
    (h : Mirrors now grace r db) :
    Agrees now grace db Eq (AssetStore.commitAsset env id size checksum caller mime expected
      (inMemory now r))
      (commitAsset env id size checksum caller mime expected (inUnit now grace db)) := by
  refine .transactional (.check Iff.rfl rfl h fun hsize => .check Iff.rfl rfl h fun _ =>
    .check Iff.rfl rfl h fun _ => ?_)
  refine .right rfl (.lookup h h fun row get => ?_)
  have hformed := h.formed.row_formed _ _ get
  refine .check Iff.rfl rfl h fun hstate => .check Iff.rfl rfl h fun _ => ?_
  refine .enforce h h hformed.space hformed.partition fun db1 h1 hassets haliases => ?_
  have get1 : db1.assets.get id = some row := by
    rw [hassets]
    exact get
  have hfrom : db1.assetFromRow row = db.assetFromRow row := by
    simp only [Database.assetFromRow, Database.aliasNames, haliases]
  rw [← hfrom]
  have same : SameAsset row
      { row with
        state := .available, sizeBytes := some size, reservedBytes := none, checksum :=
          some (stripSpace checksum)
        updatedAt := now, mime := if ∃ m ∈ mime, m ≠ [] then mime else row.mime } :=
    ⟨rfl, rfl, rfl, fun n hn => by
      obtain rfl : size = n := Option.some.inj hn
      exact not_lt.mp hsize⟩
  have hset := h1.setRow get1 same
  refine .left rfl (.left rfl (.right (updateAsset_eq get1 _) ?_))
  refine .acquire hset hformed.space hformed.partition fun r' db' h' hassets' _ _ => ?_
  have hpending : row.state = .pending := not_not.mp hstate
  rw [show (db1.assetFromRow row).state = .pending from hpending]
  refine .left rfl (.right rfl (.reload (h'.log _) ?_))
  exact (congrArg (fun d : Dict Text Asset => d.get id) hassets').trans (Dict.get_set_self _ _ _)

theorem updateAnnotations_agrees {patch : Mapping} {overwrite : Bool} (h : Mirrors now grace r db) :
    Agrees now grace db Eq (AssetStore.updateAnnotations id patch caller overwrite (inMemory now r))
      (updateAnnotations id patch caller overwrite (inUnit now grace db)) := by
  refine .transactional (.right rfl (.lookup h h fun row get => ?_))
  have hformed := h.formed.row_formed _ _ get
  refine .check Iff.rfl rfl h fun _ => ?_
  have same : SameAsset row
      { row with annotations := if overwrite then patch else patch ∪ row.annotations,
                 updatedAt := now } :=
    ⟨rfl, rfl, rfl, hformed.sized⟩
  have hset := h.setRow get same
  refine .left rfl (.left rfl (.left rfl (.left rfl ?_)))
  refine .right (updateAsset_eq get _) (.right rfl (.reload (hset.log _) (Dict.get_set_self _ _ _)))

theorem setEvictionPolicy_agrees {policy : EvictionPolicy} (h : Mirrors now grace r db) :
    Agrees now grace db Eq (AssetStore.setEvictionPolicy id policy caller (inMemory now r))
      (setEvictionPolicy id policy caller (inUnit now grace db)) := by
  refine .transactional (.right rfl (.lookup h h fun row get => ?_))
  have hformed := h.formed.row_formed _ _ get
  refine .check Iff.rfl rfl h fun _ => ?_
  have same : SameAsset row { row with evictionPolicy := policy, updatedAt := now } :=
    ⟨rfl, rfl, rfl, hformed.sized⟩
  have hset := h.setRow get same
  refine .left rfl (.left rfl (.left rfl ?_))
  refine .right (updateAsset_eq get _) (.right rfl (.reload (hset.log _) (Dict.get_set_self _ _ _)))

/-- An expired asset is admitted and counted in before it is restored. -/
theorem Agrees.restore {α β : Type} {origin : Database} {R : α → β → Prop} {f : Unit → RegM α}
    {g : Unit → SqlM β}
    {a : Asset} (h : Mirrors now grace r db) (h0 : Mirrors now grace r origin)
    (formed : RowFormed a.toAssetRow)
    (rest : ∀ r' db', Mirrors now grace r' db' → r'.assets = r.assets → db'.assets = db.assets →
      db'.aliases = db.aliases →
      Agrees now grace origin R (f () (inMemory now r')) (g () (inUnit now grace db'))) :
    Agrees now grace origin R ((admitRestore env a >>= f) (inMemory now r))
      (((if a.state = .expired then do
          enforceQuota env a.space a.partitionId (a.sizeBytes.getD 0) (some a.assetId)
          acquireQuota a.space a.partitionId (a.sizeBytes.getD 0)
        else pure ()) >>= g) (inUnit now grace db)) := by
  unfold admitRestore
  by_cases hstate : a.state = .expired
  · rw [if_pos hstate, if_pos hstate, bind_assoc, bind_assoc]
    refine .enforce h h0 formed.space formed.partition fun db1 h1 hassets haliases => ?_
    refine .acquire h1 formed.space formed.partition fun r' db' h' hr' hdb' haliases' => ?_
    exact rest r' db' h' hr' (hdb'.trans hassets) (haliases'.trans haliases)
  · rw [if_neg hstate, if_neg hstate]
    exact .left rfl (.right rfl (rest r db h rfl rfl rfl))

theorem setAssetTtl_agrees {ttl : Int} (h : Mirrors now grace r db) :
    Agrees now grace db Eq (AssetStore.setAssetTtl env id ttl caller (inMemory now r))
      (setAssetTtl env id ttl caller (inUnit now grace db)) := by
  refine .transactional (.load h h fun row get => ?_)
  have hformed := h.formed.row_formed _ _ get
  refine .check Iff.rfl rfl h fun _ => .check Iff.rfl rfl h fun _ => .left rfl (.right rfl ?_)
  refine .sameCode h fun deadline _ => ?_
  refine .restore (a := db.assetFromRow row) h h hformed fun r' db' h' hr' hdb' haliases => ?_
  have get' : db'.assets.get id = some row := by
    rw [hdb']
    exact get
  have hfrom : db'.assetFromRow row = db.assetFromRow row := by
    simp only [Database.assetFromRow, Database.aliasNames, haliases]
  rw [← hfrom]
  have same : SameAsset row
      { row with state := .available, expiresAt := deadline, expiredAt := none,
                 updatedAt := now } :=
    ⟨rfl, rfl, rfl, hformed.sized⟩
  have hset := h'.setRow get' same
  refine .left rfl (.left rfl (.right (updateAsset_eq get' _) (.right rfl ?_)))
  exact .reload (hset.log _) (Dict.get_set_self _ _ _)

theorem recordRead_agrees (h : Mirrors now grace r db)
    (known : ∃ row, db.assets.get id = some row) :
    Agrees now grace db Eq (AssetStore.recordRead id (inMemory now r))
      (recordRead id (inUnit now grace db)) := by
  obtain ⟨row, get⟩ := known
  have hformed := h.formed.row_formed _ _ get
  refine .transactional (.left (getAsset_eq_ok.mpr ⟨h.get_some get, rfl⟩) (.right rfl ?_))
  rw [updateAsset_eq get]
  by_cases hstate : row.state = .available
  · rw [if_pos (show (db.assetFromRow row).state = .available from hstate), if_pos hstate]
    have same : SameAsset row { row with lastReadAt := some now, readCount := row.readCount + 1 } :=
      ⟨rfl, rfl, rfl, hformed.sized⟩
    have hset := h.setRow get same
    exact .left rfl (.returned rfl hset)
  · rw [if_neg (show ¬(db.assetFromRow row).state = .available from hstate), if_neg hstate,
      Dict.set_of_get get]
    exact .returned rfl h

/-- The update of a row and the release of its quota touch different tables. -/
theorem release_after_update {β : Type} {c : Prop} [Decidable c] {u : AssetRow → AssetRow}
    {space pid : Text} {n : Int}
    {g : Unit → SqlM β} {t : UnitOfWork} :
    (updateAsset id u >>= fun _ => (if c then releaseQuota space pid n else pure ()) >>= g) t =
      ((if c then releaseQuota space pid n else pure ()) >>=
        fun _ => updateAsset id u >>= g) t := by
  split
  · rfl
  · rfl

theorem lifecycleUpdate_agrees {a : Asset} {state : AssetState} {at' : Time} {reason : Text}
    {purge : Bool}
    (h : Mirrors now grace r db) :
    Agrees now grace db Eq (AssetStore.lifecycleUpdate a state at' reason purge (inMemory now r))
      (lifecycleUpdate a state at' reason purge (inUnit now grace db)) := by
  refine .transactional (.load h h fun row get => .check Iff.rfl rfl h fun hsame =>
    .sameCode h fun _ _ => ?_)
  obtain rfl : db.assetFromRow row = a := not_not.mp hsame
  have hformed := h.formed.row_formed _ _ get
  rw [release_after_update]
  refine .release h hformed fun r' db' h' _ hdb' haliases => ?_
  have get' : db'.assets.get (db.assetFromRow row).assetId = some row := by
    rw [hdb']
    exact get
  have hfrom : db'.assetFromRow row = db.assetFromRow row := by
    simp only [Database.assetFromRow, Database.aliasNames, haliases]
  rw [← hfrom] at get' ⊢
  have same : SameAsset row
      { row with
        state, updatedAt := at'
        expiredAt := if state = .expired then some at' else row.expiredAt
        payloadDeletedAt := if purge then some at' else row.payloadDeletedAt } :=
    ⟨rfl, rfl, rfl, hformed.sized⟩
  have hset := h'.setRow get' same
  refine .left rfl (.left rfl (.right (updateAsset_eq get' _) (.right rfl ?_)))
  exact .reload (hset.log _) (Dict.get_set_self _ _ _)

theorem getAsset_agrees (h : Mirrors now grace r db) :
    Agrees now grace db Eq (AssetStore.getAsset id (inMemory now r))
      (getAsset id (inUnit now grace db)) := by
  rw [← bind_pure (AssetStore.getAsset id), getAsset, ← bind_pure (loadAsset id)]
  exact .transactional (.load h h fun _ _ => .returned rfl h)

end Records

/-! ### Limits -/

/-- Normalizing the path a second time changes nothing. -/
def Settled (path : Text) : Prop := ∀ p, normalizeRelativeAlias path = .ok p → Fixed p

section Limits

variable {now : Time} {grace : Int} {db : Database} {r : Registry} {space pid caller : Text}

theorem getPartitionQuota_agrees (h : Mirrors now grace r db) :
    Agrees now grace db Eq (AssetStore.partitionQuota space pid (inMemory now r))
      (getPartitionQuota space pid (inUnit now grace db)) :=
  .transactional (.sameCode h fun s _ => .sameCode h fun p _ => .returned (h.partitions s p) h)

theorem getBucketQuota_agrees (h : Mirrors now grace r db) :
    Agrees now grace db Eq (AssetStore.bucketQuota space (inMemory now r))
      (getBucketQuota space (inUnit now grace db)) :=
  .transactional (.sameCode h fun s _ => .returned (h.buckets s) h)

/-- Counters that were just stored are the ones returned. -/
theorem getPartitionQuota_stored {q : PartitionQuota} (hspace : space ∈ storageBuckets)
    (hpid : Fixed pid)
    (get : db.partitionQuotas.get (space, pid) = some q) :
    getPartitionQuota space pid (inUnit now grace db) = .ok q (inUnit now grace db) := by
  have hnorm : normalizeSpace space = .ok space := normalizeBucket_of_mem hspace
  have hpart : normalizePartitionId pid = .ok pid := hpid
  simp only [getPartitionQuota, hnorm, hpart]
  change EStateM.Result.ok (db.partitionAt space pid) _ = _
  rw [Database.partitionAt, get]
  rfl

theorem getBucketQuota_stored {q : BucketQuota} (hspace : space ∈ storageBuckets)
    (get : db.bucketQuotas.get space = some q) :
    getBucketQuota space (inUnit now grace db) = .ok q (inUnit now grace db) := by
  have hnorm : normalizeSpace space = .ok space := normalizeBucket_of_mem hspace
  simp only [getBucketQuota, hnorm]
  change EStateM.Result.ok (db.bucketAt space) _ = _
  rw [Database.bucketAt, get]
  rfl

theorem setPartitionQuota_agrees {bytes count : Option Int} {sweep : Option Bool}
    (h : Mirrors now grace r db)
    (settled : Settled pid) :
    Agrees now grace db Eq (AssetStore.setPartitionQuota space pid bytes count sweep caller
      (inMemory now r))
      (setPartitionQuota space pid bytes count sweep caller (inUnit now grace db)) := by
  simp only [AssetStore.setPartitionQuota, AssetStore.partitionQuota, setPartitionQuota,
    partitionQuota, if_true, bind_assoc]
  refine .transactional (.check Iff.rfl rfl h fun _ => .check Iff.rfl rfl h fun _ => ?_)
  refine .sameCode h fun s hs => .sameCode h fun p hp => ?_
  have hspace : s ∈ storageBuckets := (normalizeBucket_eq_ok.mp hs).2
  have hfixed : Fixed p := settled p hp
  have hkey := h.formed.partitionAt_key s p
  have hstored : (db.touchPartition s p).partitionQuotas.get (s, p) = some (db.partitionAt s p) :=
    Dict.get_set_self _ _ _
  have hset := (h.touchPartition s p).setPartition
    (q :=
      { db.partitionAt s p with
        quotaBytes := bytes, quotaAssetCount := count
        evictionSweepEnabled := sweep.getD (db.partitionAt s p).evictionSweepEnabled }) hkey
  have hcurrent : (inMemory now r).reg.partitionAt s p = db.partitionAt s p := h.partitions s p
  have htouched : (db.touchPartition s p).partitionAt s p = db.partitionAt s p := by
    rw [Database.partitionAt, hstored]
    rfl
  have htarget : (db.partitionAt s p).space ++ '/' :: (db.partitionAt s p).partitionId = s ++
      '/' :: p := by
    rw [hkey.1, hkey.2]
  refine .left rfl (.left rfl ?_)
  rw [hcurrent]
  refine .left (putPartitionQuota_eq s p hkey) (.left rfl ?_)
  refine .right rfl (.right rfl (.right rfl (.right rfl ?_)))
  simp only [hstored, htouched, htarget]
  rw [getPartitionQuota_stored hspace hfixed (Dict.get_set_self _ _ _)]
  exact .returned rfl (hset.log _)

theorem setBucketQuota_agrees {bytes : Option Int} {warn hard : Rat} (h : Mirrors now grace r db) :
    Agrees now grace db Eq (AssetStore.setBucketQuota space bytes warn hard (inMemory now r))
      (setBucketQuota space bytes warn hard (inUnit now grace db)) := by
  simp only [AssetStore.setBucketQuota, AssetStore.bucketQuota, setBucketQuota, bucketQuota,
    if_true, bind_assoc]
  refine .transactional (.check Iff.rfl rfl h fun _ => .sameCode h fun s hs => ?_)
  have hspace : s ∈ storageBuckets := (normalizeBucket_eq_ok.mp hs).2
  have hkey := h.formed.bucketAt_key s
  have hstored : (db.touchBucket s).bucketQuotas.get s = some (db.bucketAt s) :=
    Dict.get_set_self _ _ _
  have hset := (h.touchBucket s).setBucket
    (q := { db.bucketAt s with quotaBytes := bytes, warnThreshold := warn, hardCeiling := hard })
      hkey
  refine .left rfl (.left rfl ?_)
  rw [show (inMemory now r).reg.bucketAt s = db.bucketAt s from h.buckets s]
  refine .left (putBucketQuota_eq s hkey) (.right rfl (.right rfl (.right rfl ?_)))
  simp only [hstored]
  rw [getBucketQuota_stored hspace (Dict.get_set_self _ _ _)]
  exact .returned rfl hset

end Limits

/-! ### Queries -/

section Queries

variable {now : Time} {grace : Int} {db : Database} {r : Registry} {env : Env}

theorem auditEvents_agrees (h : Mirrors now grace r db) :
    Agrees now grace db Eq ((do return (← tables).auditEvents : RegM (List AuditEvent))
      (inMemory now r))
      (auditEvents (inUnit now grace db)) :=
  .transactional (.left rfl (.returned h.events h))

theorem recentAudit_agrees {id : Option Text} {limit : Int} (h : Mirrors now grace r db) :
    Agrees now grace db Eq (AssetStore.recentAudit id limit (inMemory now r))
      (recentAudit id limit (inUnit now grace db)) := by
  refine .transactional (.check Iff.rfl rfl h fun _ => .left rfl (.returned ?_ h))
  simp only [h.events, List.take_reverse, List.reverse_reverse]

theorem filterAuxM_ok {α ε : Type} (p : α → Bool) : ∀ l acc : List α,
    (l.filterAuxM (fun a => (.ok (p a) : Except ε Bool)) acc) = .ok ((l.filter p).reverse ++ acc)
  | [], acc => by simp [List.filterAuxM, pure, Except.pure]
  | a :: l, acc => by
    simp only [List.filterAuxM, bind, Except.bind]
    rw [filterAuxM_ok p l]
    cases hp : p a <;> simp [hp]

/-- Either the space is one or there is an asset to compare it with. -/
theorem reservedUploadBytes_agrees {space : Text} (h : Mirrors now grace r db)
    (compared : (∃ s, normalizeSpace space = .ok s) ∨ db.assets.values ≠ []) :
    Agrees now grace db Eq (AssetStore.reservedUploadBytes space (inMemory now r))
      (reservedUploadBytes space (inUnit now grace db)) := by
  refine .transactional ?_
  have hvalues : r.assets.values = db.assets.values.map db.assetFromRow := by
    rw [h.assets, Dict.values_map]
  cases hs : normalizeSpace space with
  | ok s =>
    have hkept : (r.assets.values.filterM fun a => do
        let normSpace ← normalizeSpace space
        return decide (a.space = normSpace ∧ a.payloadDeletedAt = none)) =
        .ok ((db.assets.values.filter fun row => row.space = s ∧ row.payloadDeletedAt = none).map
          db.assetFromRow) := by
      rw [hs, hvalues]
      change (do
        return (← List.filterAuxM (fun a : Asset =>
          (.ok (decide (a.space = s ∧ a.payloadDeletedAt = none)) : Except Err Bool)) _
            []).reverse) = _
      rw [filterAuxM_ok, List.filter_map]
      simp
      rfl
    refine .left rfl (.left (attempt_of_ok hkept) (.right rfl ?_))
    refine .returned ?_ h
    simp only [AssetStore.sumReserved, sumReserved, List.map_map]
    rfl
  | error e =>
    obtain ⟨s, hok⟩ | hne := compared
    · cases hs.symm.trans hok
    · obtain ⟨row, rest, hrows⟩ := List.exists_cons_of_ne_nil hne
      have hraised : (r.assets.values.filterM fun a => do
          let normSpace ← normalizeSpace space
          return decide (a.space = normSpace ∧ a.payloadDeletedAt = none)) = .error e := by
        rw [hvalues, hrows, hs]
        rfl
      refine .left rfl ?_
      rw [hraised]
      exact .raised rfl h

theorem listAssets_agrees {order : RowOrder} (h : Mirrors now grace r db) :
    Agrees now grace db List.Perm (AssetStore.listAssets (inMemory now r))
      (listAssets order (inUnit now grace db)) := by
  refine .transactional (.left rfl (.returned ?_ h))
  have hrows : r.assets.values.filter (fun a => a.payloadDeletedAt = none) =
      (db.assets.values.filter fun row => row.payloadDeletedAt = none).map db.assetFromRow := by
    rw [h.assets, Dict.values_map, List.filter_map]
    rfl
  rw [hrows]
  exact ((order.perm _).map _).symm

/-- A stored row is selected when its asset is. -/
theorem selects_iff {id : Text} {row : AssetRow} {q : AssetQuery} {after : Option (Time × Text)}
    (h : db.WellFormed)
    (get : db.assets.get id = some row) :
    db.selects q after row ↔ q.accepts (db.assetFromRow row) ∧
      isPast after (db.assetFromRow row) = true := by
  have hspace : ∀ b ∈ db.aliases.values, b.assetId = some row.assetId → b.space = row.space :=
    fun b hb hid => by
    obtain ⟨⟨space, name⟩, hget⟩ := Dict.mem_values.mp hb
    obtain ⟨rfl, rfl, -⟩ := h.alias_filed _ _ _ hget
    have hbound : db.boundTo b.space b.aliasName = some row.assetId := by
      simp [Database.boundTo, hget, hid]
    obtain ⟨other, hother, hspace⟩ := h.alias_refers _ _ _ hbound
    obtain rfl := h.row_filed _ _ get
    obtain rfl := Option.some.inj (get.symm.trans hother)
    exact hspace.symm
  have hunder : ∀ p name : Text, (name = p ∨ name.take (p ++ ['/']).length = p ++ ['/']) ↔
      isUnder p name = true :=
    fun p name => by
      rw [isUnder, Bool.or_eq_true, beq_iff_eq, List.isPrefixOf_iff_prefix, List.prefix_iff_eq_take,
        eq_comm (a := name.take _)]
  have hprefix : ∀ p, (∃ b ∈ db.aliases.values, b.assetId = some row.assetId ∧
      (b.space ++ '/' :: b.aliasName = p ∨
        (b.space ++ '/' :: b.aliasName).take (p ++ ['/']).length = p ++ ['/'])) ↔
      ∃ name ∈ db.aliasNames row, isUnder p name = true := fun p => by
    simp only [hunder, Database.aliasNames, List.mem_toFinset, List.mem_map, List.mem_filter,
      decide_eq_true_eq]
    constructor
    · rintro ⟨b, hb, hid, hp⟩
      exact ⟨_, ⟨b, ⟨hb, hid⟩, rfl⟩, hspace b hb hid ▸ hp⟩
    · rintro ⟨_, ⟨b, ⟨hb, hid⟩, rfl⟩, hp⟩
      exact ⟨b, hb, hid, (hspace b hb hid).symm ▸ hp⟩
  have hpast : (∀ position ∈ after, toLex position < toLex (row.createdAt, row.assetId)) ↔
      isPast after (db.assetFromRow row) = true := by
    cases after with
    | none => simp [isPast]
    | some position =>
      simp only [isPast, Option.all_some, decide_eq_true_eq, Option.mem_some_iff, forall_eq']
      rfl
  simp only [Database.selects, AssetFilter.accepts, hprefix, hpast]
  simp only [Database.assetFromRow, and_assoc]

theorem queryAssets_agrees {order : RowOrder} {q : AssetQuery} (h : Mirrors now grace r db) :
    Agrees now grace db Eq (AssetStore.queryAssets env q (inMemory now r))
      (queryAssets env order q (inUnit now grace db)) := by
  refine .transactional (.sameCode h fun after _ => .left rfl (.returned ?_ h))
  have hvalues : r.assets.values = db.assets.values.map db.assetFromRow := by
    rw [h.assets, Dict.values_map]
  have hselect :
      (db.assets.values.map db.assetFromRow).filter (fun a => q.accepts a ∧ isPast after a) =
      (db.assets.values.filter fun row => db.selects q after row).map db.assetFromRow := by
    rw [List.filter_map]
    congr 1
    refine List.filter_congr fun row hrow => ?_
    obtain ⟨id, get⟩ := Dict.mem_values.mp hrow
    exact decide_eq_decide.mpr (selects_iff h.formed get).symm
  have hsorted :
      ((r.assets.values.mergeSort listedBefore).filter fun a => q.accepts a ∧ isPast after a) =
      ((order.arrange (db.assets.values.filter fun row => db.selects q after row)).mergeSort
        orderedBefore).map
        db.assetFromRow := by
    refine eq_of_perm_of_sorted (fun a : Asset => toLex (a.createdAt, a.assetId)) ?_
      (fun a ha b hb hkey => ?_) ?_ ?_
    · refine ((List.mergeSort_perm _ _).filter _).trans ?_
      rw [hvalues, hselect]
      exact (((List.mergeSort_perm _ _).trans (order.perm _)).map _).symm
    · -- an asset is stored under its own id
      have hfiled : ∀ c : Asset, c ∈ (r.assets.values.mergeSort listedBefore).filter
          (fun a => q.accepts a ∧ isPast after a) →
          r.assets.get c.assetId = some c := fun c hc => by
        obtain ⟨id, hid⟩ := Dict.mem_values.mp (List.mem_mergeSort.mp (List.mem_of_mem_filter hc))
        have hrow := hid
        rw [h.get] at hrow
        obtain ⟨row, get, rfl⟩ := Option.map_eq_some_iff.mp hrow
        obtain rfl : row.assetId = id := h.formed.row_filed _ _ get
        exact hid
      have hids : a.assetId = b.assetId := (Prod.mk.inj (congrArg ofLex hkey)).2
      have hsame := hfiled a ha
      rw [hids, hfiled b hb] at hsame
      exact (Option.some.inj hsame).symm
    · exact (pairwise_mergeSort_key (fun a : Asset => toLex (a.createdAt, a.assetId)) _).filter _
    · exact List.pairwise_map.mpr (pairwise_mergeSort_key
        (fun row : AssetRow => toLex (row.createdAt, row.assetId)) _)
  rw [hsorted]
  exact List.map_take.symm

end Queries

end AssetStore.Postgres
