import AssetStore.Postgres
import AssetStore.Registry.Books

/-! The tables of the Postgres registry as a mirror of the in-memory ones. The alias sets of the
assets are read off the alias table, absent quota rows stand for their defaults, and tombstones
whose grace period has elapsed count for nothing. Each change of the one side has its counterpart on
the other. -/

namespace AssetStore.Postgres

open Lib

/-! ### Well-formed tables -/

/-- The asset that an alias row refers to. -/
def Database.boundTo (db : Database) (space name : Text) : Option Text :=
  (db.aliases.get (space, name)).bind AliasBinding.assetId

/-- A path that normalization leaves as it is. -/
def Fixed (path : Text) : Prop := normalizeRelativeAlias path = .ok path

instance (path : Text) : Decidable (Fixed path) := by unfold Fixed; infer_instance

/-- What every asset row satisfies. -/
structure RowFormed (row : AssetRow) : Prop where
  space : row.space ∈ storageBuckets
  partition : Fixed row.partitionId
  sized : ∀ n ∈ row.sizeBytes, 0 ≤ n

/-- Rows are stored under their own keys, and an alias row refers to a row of its own space. -/
structure Database.WellFormed (db : Database) : Prop where
  row_filed : ∀ id row, db.assets.get id = some row → row.assetId = id
  row_formed : ∀ id row, db.assets.get id = some row → RowFormed row
  alias_filed : ∀ space name b, db.aliases.get (space, name) = some b →
    b.space = space ∧ b.aliasName = name ∧ space ∈ storageBuckets ∧ Fixed name
  alias_refers : ∀ space name id, db.boundTo space name = some id →
    ∃ row, db.assets.get id = some row ∧ row.space = space
  partition_filed : ∀ space pid q, db.partitionQuotas.get (space, pid) = some q →
    q.space = space ∧ q.partitionId = pid
  bucket_filed : ∀ space q, db.bucketQuotas.get space = some q → q.space = space

/-- The row describes the same asset. -/
structure SameAsset (row row' : AssetRow) : Prop where
  assetId : row'.assetId = row.assetId
  space : row'.space = row.space
  partitionId : row'.partitionId = row.partitionId
  sized : ∀ n ∈ row'.sizeBytes, 0 ≤ n

namespace Database.WellFormed

variable {db : Database} {id space name : Text} {row row' : AssetRow} {b : AliasBinding}

theorem partitionAt_key (h : db.WellFormed) (space pid : Text) :
    (db.partitionAt space pid).space = space ∧ (db.partitionAt space pid).partitionId = pid := by
  unfold Database.partitionAt
  cases hq : db.partitionQuotas.get (space, pid) with
  | none => exact ⟨rfl, rfl⟩
  | some q => exact h.partition_filed _ _ _ hq

theorem bucketAt_key (h : db.WellFormed) (space : Text) : (db.bucketAt space).space = space := by
  unfold Database.bucketAt
  cases hq : db.bucketQuotas.get space with
  | none => rfl
  | some q => exact h.bucket_filed _ _ hq

theorem setRow (h : db.WellFormed) (get : db.assets.get id = some row) (same : SameAsset row row') :
    { db with assets := db.assets.set id row' }.WellFormed := by
  refine { h with row_filed := fun i x hx => ?_, row_formed := fun i x hx => ?_,
                  alias_refers := fun s n i hi => ?_ }
  · simp only [Dict.get_set] at hx
    split at hx
    · rename_i heq
      obtain rfl := Option.some.inj hx
      rw [same.assetId, heq]
      exact h.row_filed _ _ get
    · exact h.row_filed _ _ hx
  · simp only [Dict.get_set] at hx
    split at hx
    · obtain rfl := Option.some.inj hx
      have hrow := h.row_formed _ _ get
      exact ⟨same.space ▸ hrow.space, same.partitionId ▸ hrow.partition, same.sized⟩
    · exact h.row_formed _ _ hx
  · obtain ⟨x, hx, hspace⟩ := h.alias_refers s n i hi
    by_cases heq : i = id
    · subst heq
      obtain rfl := Option.some.inj (get.symm.trans hx)
      exact ⟨row', Dict.get_set_self _ _ _, same.space.trans hspace⟩
    · exact ⟨x, (Dict.get_set_ne _ _ heq).trans hx, hspace⟩

theorem insertRow (h : db.WellFormed) (fresh : db.assets.get row.assetId = none)
    (formed : RowFormed row) :
    { db with assets := db.assets.set row.assetId row }.WellFormed := by
  refine { h with row_filed := fun i x hx => ?_, row_formed := fun i x hx => ?_,
                  alias_refers := fun s n i hi => ?_ }
  · simp only [Dict.get_set] at hx
    split at hx
    · rename_i heq
      exact (Option.some.inj hx) ▸ heq.symm
    · exact h.row_filed _ _ hx
  · simp only [Dict.get_set] at hx
    split at hx
    · exact (Option.some.inj hx) ▸ formed
    · exact h.row_formed _ _ hx
  · obtain ⟨x, hx, hspace⟩ := h.alias_refers s n i hi
    have hne : i ≠ row.assetId := by
      rintro rfl
      rw [fresh] at hx
      cases hx
    exact ⟨x, (Dict.get_set_ne _ _ hne).trans hx, hspace⟩

theorem boundTo_setAlias (db : Database) (space name s n : Text) (b : AliasBinding) :
    { db with aliases := db.aliases.set (space, name) b }.boundTo s n =
      if s = space ∧ n = name then b.assetId else db.boundTo s n := by
  simp only [Database.boundTo, Dict.get_set, Prod.mk.injEq]
  split <;> rfl

theorem boundTo_eraseAlias (db : Database) (space name s n : Text) :
    { db with aliases := db.aliases.erase (space, name) }.boundTo s n =
      if s = space ∧ n = name then none else db.boundTo s n := by
  simp only [Database.boundTo, Dict.get_erase, Prod.mk.injEq]
  split <;> rfl

theorem setAlias (h : db.WellFormed) (filed : b.space = space ∧ b.aliasName = name)
    (hspace : space ∈ storageBuckets) (hname : Fixed name)
    (refers : ∀ i ∈ b.assetId, ∃ row, db.assets.get i = some row ∧ row.space = space) :
    { db with aliases := db.aliases.set (space, name) b }.WellFormed := by
  refine { h with alias_filed := fun s n c hc => ?_, alias_refers := fun s n i hi => ?_ }
  · simp only [Dict.get_set, Prod.mk.injEq] at hc
    split at hc
    · rename_i heq
      obtain ⟨rfl, rfl⟩ := heq
      exact (Option.some.inj hc) ▸ ⟨filed.1, filed.2, hspace, hname⟩
    · exact h.alias_filed _ _ _ hc
  · rw [boundTo_setAlias] at hi
    split at hi
    · rename_i heq
      obtain ⟨rfl, rfl⟩ := heq
      exact refers i hi
    · exact h.alias_refers _ _ _ hi

theorem eraseAlias (h : db.WellFormed) (space name : Text) :
    { db with aliases := db.aliases.erase (space, name) }.WellFormed := by
  refine { h with alias_filed := fun s n c hc => ?_, alias_refers := fun s n i hi => ?_ }
  · simp only [Dict.get_erase] at hc
    split at hc
    · cases hc
    · exact h.alias_filed _ _ _ hc
  · rw [boundTo_eraseAlias] at hi
    split at hi
    · cases hi
    · exact h.alias_refers _ _ _ hi

theorem setPartition (h : db.WellFormed) {pid : Text} {q : PartitionQuota}
    (key : q.space = space ∧ q.partitionId = pid) :
    { db with partitionQuotas := db.partitionQuotas.set (space, pid) q }.WellFormed := by
  refine { h with partition_filed := fun s p x hx => ?_ }
  simp only [Dict.get_set, Prod.mk.injEq] at hx
  split at hx
  · rename_i heq
    obtain ⟨rfl, rfl⟩ := heq
    exact (Option.some.inj hx) ▸ key
  · exact h.partition_filed _ _ _ hx

theorem setBucket (h : db.WellFormed) {q : BucketQuota} (key : q.space = space) :
    { db with bucketQuotas := db.bucketQuotas.set space q }.WellFormed := by
  refine { h with bucket_filed := fun s x hx => ?_ }
  simp only [Dict.get_set] at hx
  split at hx
  · rename_i heq
    exact (Option.some.inj hx) ▸ heq ▸ key
  · exact h.bucket_filed _ _ hx

/-- The keys of an asset are those whose rows refer to it. -/
theorem mem_aliasNames (h : db.WellFormed) (get : db.assets.get id = some row) {key : Text} :
    key ∈ db.aliasNames row ↔ ∃ name, key = row.space ++ '/' :: name ∧
      db.boundTo row.space name = some id := by
  obtain rfl := h.row_filed _ _ get
  simp only [Database.aliasNames, List.mem_toFinset, List.mem_map, List.mem_filter, Dict.mem_values,
    decide_eq_true_eq]
  constructor
  · rintro ⟨b, ⟨⟨⟨space, name⟩, hb⟩, hid⟩, rfl⟩
    obtain ⟨rfl, rfl, -⟩ := h.alias_filed _ _ _ hb
    have hbound : db.boundTo b.space b.aliasName = some row.assetId := by
      simp [Database.boundTo, hb, hid]
    obtain ⟨other, hother, hspace⟩ := h.alias_refers _ _ _ hbound
    obtain rfl := Option.some.inj (get.symm.trans hother)
    exact ⟨b.aliasName, rfl, by rw [hspace]; exact hbound⟩
  · rintro ⟨name, rfl, hbound⟩
    obtain ⟨b, hb, hid⟩ := Option.bind_eq_some_iff.mp hbound
    obtain ⟨-, rfl, -⟩ := h.alias_filed _ _ _ hb
    exact ⟨b, ⟨⟨_, hb⟩, hid⟩, rfl⟩

end Database.WellFormed

/-! ### Usage -/

/-- What `_acquire_quota` leaves. -/
def Database.acquire (db : Database) (space pid : Text) (n : Int) : Database :=
  { db with
    partitionQuotas := db.partitionQuotas.set (space, pid)
      { db.partitionAt space pid with
        usedBytes := (db.partitionAt space pid).usedBytes + n
        usedAssetCount := (db.partitionAt space pid).usedAssetCount + 1 }
    bucketQuotas := db.bucketQuotas.set space
      { db.bucketAt space with usedBytes := (db.bucketAt space).usedBytes + n } }

/-- What `_release_quota` leaves. -/
def Database.release (db : Database) (space pid : Text) (n : Int) : Database :=
  { db with
    partitionQuotas := (db.partitionQuotas.get (space, pid)).elim db.partitionQuotas fun q =>
      db.partitionQuotas.set (space, pid)
        { q with usedBytes := max 0 (q.usedBytes - n),
                 usedAssetCount := max 0 (q.usedAssetCount - 1) }
    bucketQuotas := (db.bucketQuotas.get space).elim db.bucketQuotas fun q =>
      db.bucketQuotas.set space { q with usedBytes := max 0 (q.usedBytes - n) } }

theorem acquireQuota_eq (space pid : Text) (n : Int) (t : UnitOfWork) :
    acquireQuota space pid n t = .ok () { t with db := t.db.acquire space pid n } := by
  cases hpartition : t.db.partitionQuotas.get (space, pid) <;>
    cases hbucket : t.db.bucketQuotas.get space <;>
    simp [acquireQuota, execute, EStateM.bind, bind, Database.acquire, Database.partitionAt,
      Database.bucketAt, hpartition, hbucket, defaultPartition]

theorem releaseQuota_eq (space pid : Text) (n : Int) (t : UnitOfWork) :
    releaseQuota space pid n t = .ok () { t with db := t.db.release space pid n } := rfl

/-! ### The relation -/

/-- The part of a deadline that still lies ahead. -/
def ahead (now : Time) (deadline : Option Time) : Option Time :=
  deadline.filter fun t => decide (now < t)

/-- The database mirrors the registry from the instant `now` on. -/
structure Mirrors (now : Time) (grace : Int) (r : Registry) (db : Database) : Prop where
  formed : db.WellFormed
  grace : r.aliasGrace = grace
  assets : r.assets = db.assets.map db.assetFromRow
  aliases : ∀ space name, '/' ∉ space →
    r.aliases.get (space ++ '/' :: name) = db.aliases.get (space, name)
  tombstones : ∀ space name, '/' ∉ space →
    ahead now (r.tombstones.get (space ++ '/' :: name)) =
      ahead now (db.tombstones.get (space, name))
  partitions : ∀ space pid, r.partitionAt space pid = db.partitionAt space pid
  buckets : ∀ space, r.bucketAt space = db.bucketAt space
  events : r.auditEvents = db.auditEvents

/-- The empty tables mirror the registry before its first call. -/
theorem Mirrors.initial (now : Time) (grace : Int) : Mirrors now grace (.initial grace) {} where
  formed :=
    { row_filed := fun _ _ h => by cases h
      row_formed := fun _ _ h => by cases h
      alias_filed := fun _ _ _ h => by cases h
      alias_refers := fun _ _ _ h => by cases h
      partition_filed := fun _ _ _ h => by cases h
      bucket_filed := fun _ _ h => by cases h }
  grace := rfl
  assets := Dict.ext rfl rfl
  aliases _ _ _ := rfl
  tombstones _ _ _ := rfl
  partitions _ _ := rfl
  buckets _ := rfl
  events := rfl

theorem ahead_ahead {now later : Time} (h : now ≤ later) (deadline : Option Time) :
    ahead later (ahead now deadline) = ahead later deadline := by
  have hboth : ∀ t, (decide (now < t) && decide (later < t)) = decide (later < t) := fun t => by
    rw [Bool.eq_iff_iff, Bool.and_eq_true, decide_eq_true_iff, decide_eq_true_iff]
    exact and_iff_right_of_imp (lt_of_le_of_lt h)
  simp only [ahead, Option.filter_filter, hboth]

namespace Mirrors

variable {now later : Time} {grace : Int} {r : Registry} {db : Database} {id space name pid : Text}
  {row row' : AssetRow} {b : AliasBinding}

/-- A mirror stays one as time goes on. -/
theorem mono (h : Mirrors now grace r db) (hle : now ≤ later) : Mirrors later grace r db :=
  { h with
    tombstones := fun space name hs => by
      rw [← ahead_ahead hle, h.tombstones space name hs, ahead_ahead hle] }

theorem get (h : Mirrors now grace r db) (id : Text) :
    r.assets.get id = (db.assets.get id).map db.assetFromRow := by
  rw [h.assets, Dict.get_map]

theorem get_some (h : Mirrors now grace r db) (get : db.assets.get id = some row) :
    r.assets.get id = some (db.assetFromRow row) := by
  rw [h.get, get]
  rfl

theorem get_none (h : Mirrors now grace r db) (get : db.assets.get id = none) :
    r.assets.get id = none := by
  rw [h.get, get]
  rfl

/-! #### Records, quotas and the audit log -/

theorem log (h : Mirrors now grace r db) (e : AuditEvent) :
    Mirrors now grace { r with auditEvents := r.auditEvents ++ [e] }
      { db with auditEvents := db.auditEvents ++ [e] } where
  formed := { h.formed with }
  grace := h.grace
  assets := h.assets
  aliases := h.aliases
  tombstones := h.tombstones
  partitions := h.partitions
  buckets := h.buckets
  events := by rw [h.events]

/-- A change of one row that keeps what identifies the asset. -/
theorem setRow (h : Mirrors now grace r db) (get : db.assets.get id = some row)
    (same : SameAsset row row') :
    Mirrors now grace
      { r with assets := r.assets.set id { toAssetRow := row', aliases := db.aliasNames row } }
      { db with assets := db.assets.set id row' } := by
  have hformed := h.formed.setRow get same
  refine
    { formed := hformed, grace := h.grace, assets := ?_, aliases := h.aliases
      tombstones := h.tombstones, partitions := h.partitions, buckets :=
        h.buckets, events := h.events }
  rw [h.assets, Dict.map_set]
  have hnames : ∀ x, (x.assetId = row.assetId) → x.space = row.space →
      db.aliasNames x = db.aliasNames row := fun x hid hspace => by
    simp only [Database.aliasNames, hid, hspace]
  have hrow : { db with assets := db.assets.set id row' }.assetFromRow row' =
      { toAssetRow := row', aliases := db.aliasNames row } :=
    congrArg (Asset.mk row') (hnames row' same.assetId same.space)
  rw [hrow]
  rfl

/-- The counters may be stored or left to their defaults, on either side. -/
theorem withQuotas (h : Mirrors now grace r db) {p p' : Dict (Text × Text) PartitionQuota}
    {q q' : Dict Text BucketQuota} (formed :
      { db with partitionQuotas := p', bucketQuotas := q' }.WellFormed)
    (partitions : ∀ s pid, { r with partitionQuotas := p, bucketQuotas := q }.partitionAt s pid =
      { db with partitionQuotas := p', bucketQuotas := q' }.partitionAt s pid)
    (buckets : ∀ s, { r with partitionQuotas := p, bucketQuotas := q }.bucketAt s =
      { db with partitionQuotas := p', bucketQuotas := q' }.bucketAt s) :
    Mirrors now grace { r with partitionQuotas := p, bucketQuotas := q }
      { db with partitionQuotas := p', bucketQuotas := q' } where
  formed := formed
  grace := h.grace
  assets := h.assets
  aliases := h.aliases
  tombstones := h.tombstones
  partitions := partitions
  buckets := buckets
  events := h.events

/-- Usage and limits of a partition, on both sides. -/
theorem setPartition (h : Mirrors now grace r db) {q : PartitionQuota}
    (key : q.space = space ∧ q.partitionId = pid) :
    Mirrors now grace { r with partitionQuotas := r.partitionQuotas.set (space, pid) q }
      { db with partitionQuotas := db.partitionQuotas.set (space, pid) q } := by
  refine h.withQuotas (h.formed.setPartition key) (fun s p => ?_) h.buckets
  have hold := h.partitions s p
  simp only [Registry.partitionAt, Database.partitionAt, Dict.get_set] at hold ⊢
  split
  · rfl
  · exact hold

theorem setBucket (h : Mirrors now grace r db) {q : BucketQuota} (key : q.space = space) :
    Mirrors now grace { r with bucketQuotas := r.bucketQuotas.set space q }
      { db with bucketQuotas := db.bucketQuotas.set space q } := by
  refine h.withQuotas (h.formed.setBucket key) h.partitions fun s => ?_
  have hold := h.buckets s
  simp only [Registry.bucketAt, Database.bucketAt, Dict.get_set] at hold ⊢
  split
  · rfl
  · exact hold

/-- Storing a default row says nothing new. -/
theorem touchPartition (h : Mirrors now grace r db) (space pid : Text) :
    Mirrors now grace r (db.touchPartition space pid) := by
  refine h.withQuotas (h.formed.setPartition (h.formed.partitionAt_key space pid))
    (fun s p => ?_) h.buckets
  refine (h.partitions s p).trans ?_
  simp only [Database.partitionAt, Dict.get_set, Prod.mk.injEq]
  split
  · rename_i heq
    obtain ⟨rfl, rfl⟩ := heq
    rfl
  · rfl

theorem touchBucket (h : Mirrors now grace r db) (space : Text) :
    Mirrors now grace r (db.touchBucket space) := by
  refine h.withQuotas (h.formed.setBucket (h.formed.bucketAt_key space)) h.partitions fun s => ?_
  refine (h.buckets s).trans ?_
  simp only [Database.bucketAt, Dict.get_set]
  split
  · rename_i heq
    obtain rfl := heq
    rfl
  · rfl

/-- An asset is counted in. -/
theorem acquire (h : Mirrors now grace r db) (space pid : Text) (n : Int) :
    Mirrors now grace (r.withUsage (r.books.acquire space pid n)) (db.acquire space pid n) := by
  have hset := (h.setPartition
    (q := { db.partitionAt space pid with
      usedBytes := (db.partitionAt space pid).usedBytes + n
      usedAssetCount := (db.partitionAt space pid).usedAssetCount + 1 })
    (h.formed.partitionAt_key space pid)).setBucket
    (q := { db.bucketAt space with usedBytes := (db.bucketAt space).usedBytes + n })
    (h.formed.bucketAt_key space)
  rw [← h.partitions, ← h.buckets] at hset
  rw [Database.acquire, ← h.partitions, ← h.buckets]
  exact hset

/-- An asset is counted out. Where no row is stored, there is nothing to count out. -/
theorem release (h : Mirrors now grace r db) (space pid : Text) {n : Int} (hn : 0 ≤ n) :
    Mirrors now grace (r.withUsage (r.books.release space pid n)) (db.release space pid n) := by
  have hbuckets : ∀ {d : Database}, d.WellFormed → d.bucketQuotas = db.bucketQuotas →
      { d with bucketQuotas := (db.release space pid n).bucketQuotas }.WellFormed :=
        fun {d} hd hsame => by
    simp only [Database.release, ← hsame]
    cases hq : d.bucketQuotas.get space with
    | none => exact hd
    | some q =>
      have hkey : q.space = space := hd.bucket_filed _ _ hq
      exact hd.setBucket (q := { q with usedBytes := max 0 (q.usedBytes - n) }) hkey
  have hformed : (db.release space pid n).WellFormed := by
    cases hq : db.partitionQuotas.get (space, pid) with
    | none => simpa [Database.release, hq] using hbuckets h.formed rfl
    | some q =>
      have hkey : q.space = space ∧ q.partitionId = pid := h.formed.partition_filed _ _ _ hq
      have hset := h.formed.setPartition
        (q := { q with usedBytes := max 0 (q.usedBytes - n),
                       usedAssetCount := max 0 (q.usedAssetCount - 1) }) hkey
      simpa [Database.release, hq] using hbuckets hset rfl
  refine h.withQuotas hformed (fun s p => ?_) fun s => ?_
  · have hold := h.partitions s p
    by_cases heq : (s, p) = (space, pid)
    · obtain ⟨rfl, rfl⟩ := Prod.mk.inj heq
      simp only [Registry.partitionAt, Database.partitionAt, Registry.books, Books.release,
        Books.partitionAt, Dict.get_set_self, Option.getD_some] at hold ⊢
      rw [hold]
      cases hp : db.partitionQuotas.get (s, p) with
      | none => simp [defaultPartition, hp, hn]
      | some q => simp
    · simp only [Registry.partitionAt, Database.partitionAt, Registry.books, Books.release,
        Dict.get_set_ne _ _ heq] at hold ⊢
      rw [hold]
      cases hp : db.partitionQuotas.get (space, pid) with
      | none => rfl
      | some q => simp [Dict.get_set_ne _ _ heq]
  · have hold := h.buckets s
    by_cases heq : s = space
    · subst heq
      simp only [Registry.bucketAt, Database.bucketAt, Registry.books, Books.release,
        Books.bucketAt, Dict.get_set_self, Option.getD_some] at hold ⊢
      rw [hold]
      cases hp : db.bucketQuotas.get s with
      | none => simp [hp, hn]
      | some q => simp
    · simp only [Registry.bucketAt, Database.bucketAt, Registry.books, Books.release,
        Dict.get_set_ne _ _ heq] at hold ⊢
      rw [hold]
      cases hp : db.bucketQuotas.get space with
      | none => rfl
      | some q => simp [Dict.get_set_ne _ _ heq]

/-! #### Aliases -/

/-- An asset whose alias rows are as before has the keys it had before. -/
theorem aliasNames_congr {db' : Database} (h : db.WellFormed) (h' : db'.WellFormed)
    (get : db.assets.get id = some row) (get' : db'.assets.get id = some row)
    (bound : ∀ name, db'.boundTo row.space name = some id ↔ db.boundTo row.space name = some id) :
    db'.aliasNames row = db.aliasNames row := by
  ext key
  rw [h'.mem_aliasNames get', h.mem_aliasNames get]
  exact exists_congr fun name => and_congr_right fun _ => bound name

/-- The assets after a change that concerns the keys of one of them. -/
theorem assets_setKeys {db' : Database} {names : Finset Text} (h : Mirrors now grace r db)
    (formed : db'.WellFormed) (hassets : db'.assets = db.assets.set id row')
    (self : db'.aliasNames row' = names)
    (others : ∀ i, i ≠ id → ∀ s n, db'.boundTo s n = some i ↔ db.boundTo s n = some i) :
    r.assets.set id { toAssetRow := row', aliases := names } = db'.assets.map db'.assetFromRow := by
  have hkept : db'.assetFromRow row' = { toAssetRow := row', aliases := names } :=
    congrArg (Asset.mk row') self
  rw [hassets, h.assets, Dict.map_set, hkept]
  ext1
  · rfl
  · funext i
    rw [Dict.get_set, Dict.get_set]
    split
    · rfl
    · rename_i hne
      rw [Dict.get_map, Dict.get_map]
      cases hi : db.assets.get i with
      | none => rfl
      | some x =>
        have hi' : db'.assets.get i = some x := by rw [hassets, Dict.get_set_ne _ _ hne, hi]
        have hsame := aliasNames_congr h.formed formed hi hi' fun name => others i hne x.space name
        exact congrArg some (congrArg (Asset.mk x) hsame.symm)

/-- The alias table after a change of one row. -/
theorem aliases_set (h : Mirrors now grace r db) (hs : '/' ∉ space) (name : Text) (b : AliasBinding)
    (s n : Text) (hs' : '/' ∉ s) :
    (r.aliases.set (space ++ '/' :: name) b).get (s ++ '/' :: n) =
      (db.aliases.set (space, name) b).get (s, n) := by
  rw [Dict.get_set, Dict.get_set, h.aliases s n hs']
  by_cases heq : (s, n) = (space, name)
  · obtain ⟨rfl, rfl⟩ := Prod.mk.inj heq
    simp
  · rw [if_neg heq, if_neg fun hkey => heq (Prod.ext_iff.mpr (append_slash_inj hs' hs hkey))]

theorem aliases_erase (h : Mirrors now grace r db) (hs : '/' ∉ space) (name : Text) (s n : Text)
    (hs' : '/' ∉ s) :
    (r.aliases.erase (space ++ '/' :: name)).get (s ++ '/' :: n) =
      (db.aliases.erase (space, name)).get (s, n) := by
  rw [Dict.get_erase, Dict.get_erase, h.aliases s n hs']
  by_cases heq : (s, n) = (space, name)
  · obtain ⟨rfl, rfl⟩ := Prod.mk.inj heq
    simp
  · rw [if_neg heq, if_neg fun hkey => heq (Prod.ext_iff.mpr (append_slash_inj hs' hs hkey))]

/-- A name that refers to nothing is bound to an asset of its space. -/
theorem bindAlias (h : Mirrors now grace r db) (get : db.assets.get id = some row)
    (same : SameAsset row row')
    (hspace : row.space = space) (free : db.boundTo space name = none)
    (filed : b.space = space ∧ b.aliasName = name) (hname : Fixed name)
    (refers : b.assetId = some id) :
    Mirrors now grace
      { r with
        assets := r.assets.set id
          { toAssetRow := row', aliases := insert (space ++ '/' :: name) (db.aliasNames row) }
        aliases := r.aliases.set (space ++ '/' :: name) b }
      { db with assets := db.assets.set id row', aliases := db.aliases.set (space, name) b } := by
  have hrow := h.formed.row_formed _ _ get
  have hmem : space ∈ storageBuckets := hspace ▸ hrow.space
  have hslash : '/' ∉ space := bucket_no_slash hmem
  have hformed : { db with assets := db.assets.set id row',
                           aliases := db.aliases.set (space, name) b }.WellFormed := by
    refine (h.formed.setRow get same).setAlias filed hmem hname fun i hi =>
      ⟨row', ?_, same.space.trans hspace⟩
    obtain rfl : id = i := Option.some.inj (refers.symm.trans hi)
    exact Dict.get_set_self _ _ _
  have hbound : ∀ s n, { db with assets := db.assets.set id row',
                                 aliases := db.aliases.set (space, name) b }.boundTo s n =
      if s = space ∧ n = name then some id else db.boundTo s n := fun s n => by
    rw [← refers]
    exact Database.WellFormed.boundTo_setAlias db space name s n b
  refine
    { formed := hformed, grace := h.grace, assets := ?_, aliases := h.aliases_set hslash name b
      tombstones := h.tombstones, partitions := h.partitions, buckets :=
        h.buckets, events := h.events }
  refine h.assets_setKeys hformed rfl ?_ fun i hne s n => ?_
  · ext key
    rw [hformed.mem_aliasNames (Dict.get_set_self _ _ _), Finset.mem_insert,
      h.formed.mem_aliasNames get, same.space]
    constructor
    · rintro ⟨n, rfl, hn⟩
      rw [hbound] at hn
      split at hn
      · rename_i heq
        exact .inl (by rw [heq.1, heq.2])
      · exact .inr ⟨n, rfl, hn⟩
    · rintro (rfl | ⟨n, rfl, hn⟩)
      · exact ⟨name, by rw [hspace], by rw [hbound, if_pos ⟨hspace, rfl⟩]⟩
      · refine ⟨n, rfl, ?_⟩
        rw [hbound]
        split
        · rfl
        · exact hn
  · rw [hbound]
    split
    · rename_i heq
      obtain ⟨rfl, rfl⟩ := heq
      simp [free, Ne.symm hne]
    · exact Iff.rfl

/-- A name that is bound is unbound, whether its row goes or stays. -/
theorem unbindAlias {aliases : Dict Text AliasBinding} {rows : Dict (Text × Text) AliasBinding}
    (h : Mirrors now grace r db) (get : db.assets.get id = some row) (same : SameAsset row row')
    (bound : db.boundTo space name = some id)
    (formed : { db with assets := db.assets.set id row', aliases := rows }.WellFormed)
    (unbound : ∀ s n, { db with aliases := rows }.boundTo s n =
      if s = space ∧ n = name then none else db.boundTo s n)
    (haliases : ∀ s n, '/' ∉ s → aliases.get (s ++ '/' :: n) = rows.get (s, n)) :
    Mirrors now grace
      { r with
        assets := r.assets.set id
          { toAssetRow := row', aliases := (db.aliasNames row).erase (space ++ '/' :: name) }
        aliases := aliases }
      { db with assets := db.assets.set id row', aliases := rows } := by
  obtain ⟨x, hx, hspace⟩ := h.formed.alias_refers _ _ _ bound
  obtain rfl := Option.some.inj (get.symm.trans hx)
  have hslash : '/' ∉ row.space := bucket_no_slash (h.formed.row_formed _ _ get).space
  have hbound : ∀ s n, { db with assets := db.assets.set id row', aliases := rows }.boundTo s n =
      if s = space ∧ n = name then none else db.boundTo s n := unbound
  refine
    { formed := formed, grace := h.grace, assets := ?_, aliases := haliases
      tombstones := h.tombstones, partitions := h.partitions, buckets :=
        h.buckets, events := h.events }
  refine h.assets_setKeys formed rfl ?_ fun i hne s n => ?_
  · ext key
    rw [formed.mem_aliasNames (Dict.get_set_self _ _ _), Finset.mem_erase,
      h.formed.mem_aliasNames get, same.space]
    constructor
    · rintro ⟨n, rfl, hn⟩
      rw [hbound] at hn
      split at hn
      · cases hn
      · rename_i hne
        refine ⟨fun hkey => hne ?_, n, rfl, hn⟩
        obtain ⟨-, rfl⟩ := append_slash_inj hslash (hspace ▸ hslash) hkey
        exact ⟨hspace, rfl⟩
    · rintro ⟨hne, n, rfl, hn⟩
      refine ⟨n, rfl, ?_⟩
      rw [hbound, if_neg]
      · exact hn
      · rintro ⟨heq, rfl⟩
        exact hne (by rw [heq])
  · rw [hbound]
    split
    · rename_i heq
      obtain ⟨rfl, rfl⟩ := heq
      simp [bound, Ne.symm hne]
    · exact Iff.rfl

/-- A new asset, to which no alias row refers yet. -/
theorem insertRow (h : Mirrors now grace r db) (fresh : db.assets.get row.assetId = none)
    (formed : RowFormed row) :
    Mirrors now grace
      { r with assets := r.assets.set row.assetId { toAssetRow := row, aliases := ∅ } }
      { db with assets := db.assets.set row.assetId row } := by
  have hformed := h.formed.insertRow fresh formed
  refine
    { formed := hformed, grace := h.grace, assets := ?_, aliases := h.aliases
      tombstones := h.tombstones, partitions := h.partitions, buckets :=
        h.buckets, events := h.events }
  have hnames : { db with assets := db.assets.set row.assetId row }.aliasNames row = ∅ := by
    refine Finset.eq_empty_of_forall_notMem fun key hkey => ?_
    obtain ⟨name, -, hbound⟩ := (hformed.mem_aliasNames (Dict.get_set_self _ _ _)).mp hkey
    obtain ⟨x, hx, -⟩ := h.formed.alias_refers _ _ _ hbound
    rw [fresh] at hx
    cases hx
  have hrow : { db with assets := db.assets.set row.assetId row }.assetFromRow row =
      { toAssetRow := row, aliases := ∅ } :=
    congrArg (Asset.mk row) hnames
  rw [h.assets, Dict.map_set, hrow]
  rfl

/-! #### Tombstones -/

/-- A name is blocked for the grace period. -/
theorem bury (h : Mirrors now grace r db) (hs : '/' ∉ space) (name : Text) (deadline : Time) :
    Mirrors now grace { r with tombstones := r.tombstones.set (space ++ '/' :: name) deadline }
      { db with tombstones := db.tombstones.set (space, name) deadline } := by
  refine
    { formed := { h.formed with }, grace := h.grace, assets := h.assets, aliases := h.aliases
      tombstones := fun s n hs' => ?_, partitions := h.partitions, buckets :=
        h.buckets, events := h.events }
  rw [Dict.get_set, Dict.get_set]
  by_cases heq : (s, n) = (space, name)
  · obtain ⟨rfl, rfl⟩ := Prod.mk.inj heq
    simp
  · rw [if_neg heq, if_neg fun hkey => heq (Prod.ext_iff.mpr (append_slash_inj hs' hs hkey))]
    exact h.tombstones s n hs'

/-- An elapsed tombstone is dropped in memory. -/
theorem forgetLeft (h : Mirrors now grace r db) {key : Text}
    (elapsed : ahead now (r.tombstones.get key) = none) :
    Mirrors now grace { r with tombstones := r.tombstones.erase key } db := by
  refine
    { formed := h.formed, grace := h.grace, assets := h.assets, aliases := h.aliases
      tombstones := fun s n hs => ?_, partitions := h.partitions, buckets :=
        h.buckets, events := h.events }
  rw [Dict.get_erase]
  split
  · rename_i hkey
    rw [← h.tombstones s n hs, hkey, elapsed]
    rfl
  · exact h.tombstones s n hs

/-- An elapsed tombstone is deleted from its table. -/
theorem forgetRight (h : Mirrors now grace r db)
    (elapsed : ahead now (db.tombstones.get (space, name)) = none) :
    Mirrors now grace r { db with tombstones := db.tombstones.erase (space, name) } := by
  refine
    { formed := { h.formed with }, grace := h.grace, assets := h.assets, aliases := h.aliases
      tombstones := fun s n hs => ?_, partitions := h.partitions, buckets :=
        h.buckets, events := h.events }
  rw [Dict.get_erase]
  split
  · rename_i hkey
    obtain ⟨rfl, rfl⟩ := Prod.mk.inj hkey
    rw [h.tombstones s n hs, elapsed]
    rfl
  · exact h.tombstones s n hs

end Mirrors

end AssetStore.Postgres
