import AssetStore.Models
import Mathlib.Tactic.Linarith

/-! The accounting behind the quotas, apart from any backend. The books are the asset rows with the
stored limits and usage. A step of the books is a lifecycle transition of one row together with
what it does to the usage. Exact books stay exact under every step, and limits that held before a
step hold after it. -/

namespace AssetStore

open Lib

/-- The asset rows and the stored limits and usage. -/
structure Books where
  rows : Dict Text AssetRow
  partitions : Dict (Text × Text) PartitionQuota
  buckets : Dict Text BucketQuota

namespace Books

def partitionAt (b : Books) (space p : Text) : PartitionQuota :=
  (b.partitions.get (space, p)).getD (defaultPartition space p)

def bucketAt (b : Books) (space : Text) : BucketQuota := (b.buckets.get space).getD { space }

/-- Stores a row. -/
def put (b : Books) (id : Text) (a : AssetRow) : Books := { b with rows := b.rows.set id a }

/-- Adds to the usage of a partition and of its bucket. -/
def shift (b : Books) (space p : Text) (bytes count : Int) : Books :=
  { b with
    partitions := b.partitions.set (space, p)
      { b.partitionAt space p with
        usedBytes := (b.partitionAt space p).usedBytes + bytes
        usedAssetCount := (b.partitionAt space p).usedAssetCount + count }
    buckets := b.buckets.set space
      { b.bucketAt space with usedBytes := (b.bucketAt space).usedBytes + bytes } }

/-- Counts an asset of `n` bytes in. -/
def acquire (b : Books) (space p : Text) (n : Int) : Books := b.shift space p n 1

/-- Counts an asset of `n` bytes out, without going below zero. -/
def release (b : Books) (space p : Text) (n : Int) : Books :=
  { b with
    partitions := b.partitions.set (space, p)
      { b.partitionAt space p with
        usedBytes := max 0 ((b.partitionAt space p).usedBytes - n)
        usedAssetCount := max 0 ((b.partitionAt space p).usedAssetCount - 1) }
    buckets := b.buckets.set space
      { b.bucketAt space with usedBytes := max 0 ((b.bucketAt space).usedBytes - n) } }

end Books

/-! ### What a row counts for -/

namespace AssetRow

def liveBytes (a : AssetRow) : Int := if a.state = .available then a.sizeBytes.getD 0 else 0

def liveCount (a : AssetRow) : Int := if a.state = .available then 1 else 0

def pendingBytes (a : AssetRow) : Int := if a.state = .pending then a.reservedBytes.getD 0 else 0

def pendingCount (a : AssetRow) : Int :=
  if a.state = .pending ∧ a.reservedBytes ≠ none then 1 else 0

/-- The bytes on the medium, until the payload is purged. -/
def heldBytes (a : AssetRow) : Int := if a.payloadDeletedAt = none then a.physicalBytes else 0

end AssetRow

/-- The share `f` of the rows of a partition. -/
def inPartition (part : Text → Option Text) (space p : Text) (f : AssetRow → Int)
    (a : AssetRow) : Int :=
  if a.space = space ∧ part a.partitionId = some p then f a else 0

/-- The share `f` of the rows of a space. -/
def inSpace (space : Text) (f : AssetRow → Int) (a : AssetRow) : Int :=
  if a.space = space then f a else 0

/-- A row that the lifecycle can produce. `part` gives the quota partition of a partition id. -/
structure AssetRow.Valid (part : Text → Option Text) (a : AssetRow) : Prop where
  space_mem : a.space ∈ storageBuckets
  partition_known : ∃ p, part a.partitionId = some p
  size_nonneg : ∀ n ∈ a.sizeBytes, 0 ≤ n
  reserved_nonneg : ∀ n ∈ a.reservedBytes, 0 ≤ n
  committed : a.sizeBytes ≠ none → a.reservedBytes = none ∧ a.state ≠ .pending
  live_sized : a.state = .available → a.sizeBytes ≠ none
  purged_deleted : a.payloadDeletedAt ≠ none → a.state = .deleted

/-- Rows are filed under their own id and usage under its own key. -/
structure Books.Valid (part : Text → Option Text) (b : Books) : Prop where
  row_filed : ∀ id a, b.rows.get id = some a → a.assetId = id
  row_valid : ∀ id a, b.rows.get id = some a → a.Valid part
  partition_filed : ∀ key q, b.partitions.get key = some q → (q.space, q.partitionId) = key
  bucket_filed : ∀ space q, b.buckets.get space = some q → q.space = space

/-! ### Transitions of a row -/

/-- What only a commit changes. -/
structure SameContent (a a' : AssetRow) : Prop where
  assetId : a'.assetId = a.assetId
  space : a'.space = a.space
  partitionId : a'.partitionId = a.partitionId
  storageKey : a'.storageKey = a.storageKey
  sizeBytes : a'.sizeBytes = a.sizeBytes
  reservedBytes : a'.reservedBytes = a.reservedBytes
  checksum : a'.checksum = a.checksum

/-- A transition that neither enters nor leaves the available state. -/
inductive Quiet (a a' : AssetRow) : Prop
  | note (same : SameContent a a') (state : a'.state = a.state)
      (payload : a'.payloadDeletedAt = a.payloadDeletedAt)
  | retire (same : SameContent a a') (before : a.state = .pending ∨ a.state = .expired)
      (after : a'.state = .deleted ∨ a.state = .pending ∧ a'.state = .expired)
      (payload : a'.payloadDeletedAt = a.payloadDeletedAt)
  | purge (same : SameContent a a') (before : a.state = .deleted) (after : a'.state = .deleted)
      (payload : a.payloadDeletedAt = none)

/-- A transition out of the available state. -/
structure Leaves (a a' : AssetRow) : Prop where
  same : SameContent a a'
  before : a.state = .available
  after : a'.state = .expired ∨ a'.state = .deleted
  payload : a'.payloadDeletedAt = a.payloadDeletedAt

/-- A committed asset becomes available again. -/
structure Restores (a a' : AssetRow) : Prop where
  same : SameContent a a'
  before : a.state = .expired
  after : a'.state = .available
  committed : a.sizeBytes ≠ none ∧ a.checksum ≠ none
  payload : a'.payloadDeletedAt = a.payloadDeletedAt

/-- A pending asset becomes available with the given size and checksum. -/
structure Commits (a a' : AssetRow) (size : Int) (checksum : Text) : Prop where
  assetId : a'.assetId = a.assetId
  space : a'.space = a.space
  partitionId : a'.partitionId = a.partitionId
  storageKey : a'.storageKey = a.storageKey
  before : a.state = .pending
  after : a'.state = .available
  size_nonneg : 0 ≤ size
  reserved : ∀ n ∈ a.reservedBytes, n = size
  sizeBytes : a'.sizeBytes = some size
  reservedBytes : a'.reservedBytes = none
  checksum : a'.checksum = some checksum
  payload : a'.payloadDeletedAt = a.payloadDeletedAt

/-! ### Admission -/

/-- The rows that an admission looks at: all but the excluded one. -/
def others (rows : Dict Text AssetRow) (exclude : Option Text) : Dict Text AssetRow :=
  exclude.elim rows rows.erase

/-- The limits admit `n` more bytes for the partition id `pid`, which counts in the quota partition
`p`. -/
structure Books.Admits (env : Env) (b : Books) (space pid p : Text) (n : Int)
    (exclude : Option Text) : Prop where
  bytes : ∀ q ∈ (b.partitionAt space p).quotaBytes,
    (((b.partitionAt space p).usedBytes +
      (others b.rows exclude).sum (inPartition some space pid AssetRow.pendingBytes) + n : Int) :
        Rat)
      < q * partitionHardRatio
  count : ∀ q ∈ (b.partitionAt space p).quotaAssetCount,
    (b.partitionAt space p).usedAssetCount +
      (others b.rows exclude).sum (inPartition some space pid AssetRow.pendingCount) + 1 ≤ q
  physical : ∀ limits limit, capacityLimits env = .ok limits → limits.lookup space = some limit →
    (((others b.rows exclude).sum (inSpace space AssetRow.heldBytes) + n : Int) : Rat)
      < limit * env.capacityHardRatio
  bucket : ∀ q ∈ (b.bucketAt space).quotaBytes,
    (((b.bucketAt space).usedBytes +
      (others b.rows exclude).sum (inSpace space AssetRow.pendingBytes) + n : Int) : Rat)
      < q * (b.bucketAt space).hardCeiling

/-! ### Steps of the books -/

section Steps

variable (part : Text → Option Text) (env : Env) (new : AssetRow → Prop)

/-- A lifecycle transition other than a commit, with its effect on the usage. A row that is
reserved satisfies `new`. -/
inductive Books.Step (b : Books) : Books → Prop
  | reserve {id : Text} {a : AssetRow} (fresh : b.rows.get id = none) (filed : a.assetId = id)
      (valid : a.Valid part) (state : a.state = .pending) (unsized : a.sizeBytes = none)
      (spec : new a)
      (admitted : ∀ n ∈ a.reservedBytes, ∃ p, part a.partitionId = some p ∧
        b.Admits env a.space a.partitionId p n none) :
      Books.Step b (b.put id a)
  | quiet {id : Text} {a a' : AssetRow} (get : b.rows.get id = some a) (move : Quiet a a') :
      Books.Step b (b.put id a')
  | leave {id p : Text} {a a' : AssetRow} (get : b.rows.get id = some a) (move : Leaves a a')
      (partition : part a.partitionId = some p) :
      Books.Step b ((b.put id a').release a.space p (a.sizeBytes.getD 0))
  | restore {id p : Text} {a a' : AssetRow} (get : b.rows.get id = some a) (move : Restores a a')
      (partition : part a.partitionId = some p)
      (admitted : b.Admits env a.space a.partitionId p (a.sizeBytes.getD 0) (some id)) :
      Books.Step b ((b.put id a').acquire a.space p (a.sizeBytes.getD 0))

/-- The commit of the asset `id`. -/
inductive Books.Commit (id : Text) (size : Int) (checksum : Text) (b : Books) : Books → Prop
  | mk {p : Text} {a a' : AssetRow} (get : b.rows.get id = some a)
      (move : Commits a a' size checksum) (partition : part a.partitionId = some p)
      (admitted : b.Admits env a.space a.partitionId p size (some id)) :
      Books.Commit id size checksum b ((b.put id a').acquire a.space p size)

/-- A change of limits, which keeps the usage. -/
inductive Books.Limits (b : Books) : Books → Prop
  | partition {space p : Text} {q : PartitionQuota}
      (key : q.space = space ∧ q.partitionId = p)
      (usage : q.usedBytes = (b.partitionAt space p).usedBytes ∧
        q.usedAssetCount = (b.partitionAt space p).usedAssetCount) :
      Books.Limits b { b with partitions := b.partitions.set (space, p) q }
  | bucket {space : Text} {q : BucketQuota} (key : q.space = space)
      (usage : q.usedBytes = (b.bucketAt space).usedBytes) :
      Books.Limits b { b with buckets := b.buckets.set space q }

end Steps

/-! ### How steps change the usage -/

namespace Books

variable (b : Books) (space p space' p' : Text) (n : Int) (id : Text) (a : AssetRow)

@[simp] theorem rows_put : (b.put id a).rows = b.rows.set id a := rfl
@[simp] theorem partitions_put : (b.put id a).partitions = b.partitions := rfl
@[simp] theorem buckets_put : (b.put id a).buckets = b.buckets := rfl
@[simp] theorem partitionAt_put : (b.put id a).partitionAt space p = b.partitionAt space p := rfl
@[simp] theorem bucketAt_put : (b.put id a).bucketAt space = b.bucketAt space := rfl
@[simp] theorem rows_shift (c : Int) : (b.shift space p n c).rows = b.rows := rfl
@[simp] theorem rows_acquire : (b.acquire space p n).rows = b.rows := rfl
@[simp] theorem rows_release : (b.release space p n).rows = b.rows := rfl

theorem partitionAt_shift (c : Int) :
    (b.shift space p n c).partitionAt space' p' =
      if space' = space ∧ p' = p then
        { b.partitionAt space p with
          usedBytes := (b.partitionAt space p).usedBytes + n
          usedAssetCount := (b.partitionAt space p).usedAssetCount + c }
      else b.partitionAt space' p' := by
  simp only [partitionAt, shift, Dict.get_set, Prod.mk.injEq]
  split <;> rfl

theorem bucketAt_shift (c : Int) :
    (b.shift space p n c).bucketAt space' =
      if space' = space then
        { b.bucketAt space with usedBytes := (b.bucketAt space).usedBytes + n }
      else b.bucketAt space' := by
  simp only [bucketAt, shift, Dict.get_set]
  split <;> rfl

/-- The clamps of a release do nothing when there is enough to release. -/
theorem release_eq_shift (hb : n ≤ (b.partitionAt space p).usedBytes)
    (hc : 1 ≤ (b.partitionAt space p).usedAssetCount) (hq : n ≤ (b.bucketAt space).usedBytes) :
    b.release space p n = b.shift space p (-n) (-1) := by
  simp only [release, shift]
  rw [max_eq_right (by omega), max_eq_right (by omega), max_eq_right (by omega)]
  rfl

/-- The sum of the usage of the partitions of a space. -/
def spread : Int := b.partitions.sum fun q => if q.space = space then q.usedBytes else 0

theorem partitionAt_space {part : Text → Option Text} (h : b.Valid part) :
    (b.partitionAt space p).space = space := by
  unfold partitionAt
  cases hq : b.partitions.get (space, p) with
  | none => rfl
  | some q => exact congrArg Prod.fst (h.partition_filed _ _ hq)

/-- Usage without a stored row is zero. -/
theorem term_partition {part : Text → Option Text} (h : b.Valid part) :
    b.partitions.term (fun q => if q.space = space' then q.usedBytes else 0) (space, p) =
      if space = space' then (b.partitionAt space p).usedBytes else 0 := by
  cases hq : b.partitions.get (space, p) with
  | none => simp [Dict.term, partitionAt, defaultPartition, hq]
  | some q =>
    have hkey := h.partition_filed _ _ hq
    simp only [Prod.mk.injEq] at hkey
    simp [Dict.term, partitionAt, hq, hkey.1]

/-- Storing a partition's usage changes the usage of its space by the difference. -/
theorem spread_set {part : Text → Option Text} (h : b.Valid part) {q : PartitionQuota}
    (hq : q.space = space) :
    ({ b with partitions := b.partitions.set (space, p) q } : Books).spread space' =
      b.spread space' +
        if space = space' then q.usedBytes - (b.partitionAt space p).usedBytes else 0 := by
  simp only [spread, Dict.sum_set, term_partition b space p space' h, hq]
  split <;> omega

end Books

/-! ### Exact books -/

/-- The stored usage is what the available rows add up to. -/
structure Books.Exact (part : Text → Option Text) (b : Books) : Prop where
  bytes : ∀ space p, (b.partitionAt space p).usedBytes =
    b.rows.sum (inPartition part space p AssetRow.liveBytes)
  count : ∀ space p, (b.partitionAt space p).usedAssetCount =
    b.rows.sum (inPartition part space p AssetRow.liveCount)
  bucket : ∀ space, (b.bucketAt space).usedBytes = b.rows.sum (inSpace space AssetRow.liveBytes)
  spread : ∀ space, b.spread space = (b.bucketAt space).usedBytes

section Exactness

variable {part : Text → Option Text} {env : Env} {new : AssetRow → Prop} {b b' : Books}
  {id space p : Text} {a a' : AssetRow}

theorem sum_replace (get : b.rows.get id = some a) (f : AssetRow → Int) :
    (b.rows.set id a').sum f = b.rows.sum f - f a + f a' := by
  rw [Dict.sum_set, Dict.term_of_get get]

theorem sum_add_new (fresh : b.rows.get id = none) (f : AssetRow → Int) :
    (b.rows.set id a).sum f = b.rows.sum f + f a := by
  rw [Dict.sum_set, Dict.term_of_not_get fresh, sub_zero]

theorem inPartition_of_eq {f : AssetRow → Int} (hs : a'.space = a.space)
    (hp : a'.partitionId = a.partitionId) (hf : f a' = f a) :
    inPartition part space p f a' = inPartition part space p f a := by
  simp [inPartition, hs, hp, hf]

theorem inSpace_of_eq {f : AssetRow → Int} (hs : a'.space = a.space) (hf : f a' = f a) :
    inSpace space f a' = inSpace space f a := by
  simp [inSpace, hs, hf]

theorem AssetRow.liveBytes_of_ne (h : a.state ≠ .available) : a.liveBytes = 0 := by
  simp [liveBytes, h]

theorem AssetRow.liveCount_of_ne (h : a.state ≠ .available) : a.liveCount = 0 := by
  simp [liveCount, h]

theorem AssetRow.liveBytes_of_eq (h : a.state = .available) : a.liveBytes = a.sizeBytes.getD 0 := by
  simp [liveBytes, h]

theorem AssetRow.liveCount_of_eq (h : a.state = .available) : a.liveCount = 1 := by
  simp [liveCount, h]

theorem AssetRow.Valid.liveBytes_nonneg (h : a.Valid part) : 0 ≤ a.liveBytes := by
  unfold AssetRow.liveBytes
  split
  · cases hn : a.sizeBytes with
    | none => simp
    | some n => simpa using h.size_nonneg n hn
  · exact le_refl 0

theorem AssetRow.liveCount_nonneg (a : AssetRow) : 0 ≤ a.liveCount := by
  unfold AssetRow.liveCount
  split <;> simp

/-- A transition that keeps what a row counts for keeps the books exact. -/
theorem Books.Exact.put_same (h : b.Exact part) (get : b.rows.get id = some a)
    (hs : a'.space = a.space) (hp : a'.partitionId = a.partitionId)
    (hb : a'.liveBytes = a.liveBytes) (hc : a'.liveCount = a.liveCount) :
    (b.put id a').Exact part where
  bytes s q := by
    rw [Books.rows_put, sum_replace get, inPartition_of_eq hs hp hb, Books.partitionAt_put, h.bytes]
    omega
  count s q := by
    rw [Books.rows_put, sum_replace get, inPartition_of_eq hs hp hc, Books.partitionAt_put, h.count]
    omega
  bucket s := by
    rw [Books.rows_put, sum_replace get, inSpace_of_eq hs hb, Books.bucketAt_put, h.bucket]
    omega
  spread := h.spread

/-- A new row that is not available keeps the books exact. -/
theorem Books.Exact.put_new (h : b.Exact part) (fresh : b.rows.get id = none)
    (hstate : a.state ≠ .available) : (b.put id a).Exact part where
  bytes s q := by
    rw [Books.rows_put, sum_add_new fresh, Books.partitionAt_put, h.bytes]
    simp [inPartition, AssetRow.liveBytes_of_ne hstate]
  count s q := by
    rw [Books.rows_put, sum_add_new fresh, Books.partitionAt_put, h.count]
    simp [inPartition, AssetRow.liveCount_of_ne hstate]
  bucket s := by
    rw [Books.rows_put, sum_add_new fresh, Books.bucketAt_put, h.bucket]
    simp [inSpace, AssetRow.liveBytes_of_ne hstate]
  spread := h.spread

/-- Changing the usage by what a changed row now counts for keeps the books exact. -/
theorem Books.Exact.put_shift (h : b.Exact part) (hv : b.Valid part)
    (get : b.rows.get id = some a) (hs : a'.space = a.space)
    (hp : a'.partitionId = a.partitionId) (partition : part a.partitionId = some p) :
    ((b.put id a').shift a.space p (a'.liveBytes - a.liveBytes)
      (a'.liveCount - a.liveCount)).Exact part where
  bytes s q := by
    rw [Books.rows_shift, Books.rows_put, sum_replace get, Books.partitionAt_shift]
    simp only [inPartition, hs, hp, partition, Option.some.injEq, Books.partitionAt_put, h.bytes,
      @eq_comm _ s, @eq_comm _ q]
    by_cases hkey : a.space = s ∧ p = q
    · obtain ⟨rfl, rfl⟩ := hkey
      simp only [and_self, if_true]
      unfold inPartition
      omega
    · simp [hkey, h.bytes]
  count s q := by
    rw [Books.rows_shift, Books.rows_put, sum_replace get, Books.partitionAt_shift]
    simp only [inPartition, hs, hp, partition, Option.some.injEq, Books.partitionAt_put, h.count,
      @eq_comm _ s, @eq_comm _ q]
    by_cases hkey : a.space = s ∧ p = q
    · obtain ⟨rfl, rfl⟩ := hkey
      simp only [and_self, if_true]
      unfold inPartition
      omega
    · simp [hkey, h.count]
  bucket s := by
    rw [Books.rows_shift, Books.rows_put, sum_replace get, Books.bucketAt_shift]
    simp only [inSpace, hs, Books.bucketAt_put, h.bucket, @eq_comm _ s]
    by_cases hkey : a.space = s
    · subst hkey
      simp only [if_true]
      unfold inSpace
      omega
    · simp [hkey, h.bucket]
  spread s := by
    have hspace : (b.partitionAt a.space p).space = a.space := b.partitionAt_space a.space p hv
    have hset := b.spread_set a.space p s hv
      (q := { b.partitionAt a.space p with
        usedBytes := (b.partitionAt a.space p).usedBytes + (a'.liveBytes - a.liveBytes)
        usedAssetCount := (b.partitionAt a.space p).usedAssetCount + (a'.liveCount - a.liveCount) })
      hspace
    change Books.spread { b with partitions := _ } s = _
    rw [Books.bucketAt_shift]
    refine hset.trans ?_
    simp only [h.spread, @eq_comm _ s, Books.bucketAt_put]
    by_cases hkey : a.space = s
    · subst hkey
      simp
    · simp [hkey]

/-- An available row is counted in the usage of its partition and of its bucket. -/
theorem Books.Exact.covers (h : b.Exact part) (hv : b.Valid part)
    (get : b.rows.get id = some a) (state : a.state = .available)
    (partition : part a.partitionId = some p) :
    a.sizeBytes.getD 0 ≤ (b.partitionAt a.space p).usedBytes ∧
      1 ≤ (b.partitionAt a.space p).usedAssetCount ∧
      a.sizeBytes.getD 0 ≤ (b.bucketAt a.space).usedBytes := by
  have hbytes : ∀ id a, b.rows.get id = some a → 0 ≤ a.liveBytes := fun id a hget =>
    (hv.row_valid id a hget).liveBytes_nonneg
  refine ⟨?_, ?_, ?_⟩
  · have := Dict.le_sum (f := inPartition part a.space p AssetRow.liveBytes) get fun id a hget => by
      unfold inPartition
      split
      · exact hbytes id a hget
      · exact le_refl 0
    rw [← h.bytes] at this
    simpa [inPartition, partition, AssetRow.liveBytes, state] using this
  · have := Dict.le_sum (f := inPartition part a.space p AssetRow.liveCount) get fun id a hget => by
      unfold inPartition
      split
      · exact a.liveCount_nonneg
      · exact le_refl 0
    rw [← h.count] at this
    simpa [inPartition, partition, AssetRow.liveCount, state] using this
  · have := Dict.le_sum (f := inSpace a.space AssetRow.liveBytes) get fun id a hget => by
      unfold inSpace
      split
      · exact hbytes id a hget
      · exact le_refl 0
    rw [← h.bucket] at this
    simpa [inSpace, AssetRow.liveBytes, state] using this

theorem Quiet.live (h : Quiet a a') : a'.liveBytes = a.liveBytes ∧ a'.liveCount = a.liveCount := by
  cases h with
  | note same state _ => simp [AssetRow.liveBytes, AssetRow.liveCount, state, same.sizeBytes]
  | retire _ before after _ =>
    rcases before with h | h <;> rcases after with h' | ⟨_, h'⟩ <;>
      simp [AssetRow.liveBytes, AssetRow.liveCount, h, h']
  | purge _ before after _ => simp [AssetRow.liveBytes, AssetRow.liveCount, before, after]

theorem Quiet.same (h : Quiet a a') : SameContent a a' := by
  cases h <;> assumption

theorem Books.Exact.step (h : b.Exact part) (hv : b.Valid part)
    (hstep : Books.Step part env new b b') : b'.Exact part := by
  cases hstep with
  | reserve fresh _ _ state _ _ _ => exact h.put_new fresh (by simp [state])
  | quiet get move =>
    exact h.put_same get move.same.space move.same.partitionId move.live.1 move.live.2
  | @leave id p a a' get move partition =>
    obtain ⟨hb, hc, hq⟩ := h.covers hv get move.before partition
    have hafter : a'.state ≠ .available := by rcases move.after with e | e <;> simp [e]
    have := h.put_shift hv get move.same.space move.same.partitionId partition
    rw [(b.put id a').release_eq_shift a.space p _ hb hc hq]
    simpa [AssetRow.liveBytes_of_ne hafter, AssetRow.liveCount_of_ne hafter,
      AssetRow.liveBytes_of_eq move.before, AssetRow.liveCount_of_eq move.before] using this
  | @restore id p a a' get move partition _ =>
    have hbefore : a.state ≠ .available := by simp [move.before]
    have := h.put_shift hv get move.same.space move.same.partitionId partition
    simpa [AssetRow.liveBytes_of_ne hbefore, AssetRow.liveCount_of_ne hbefore, Books.acquire,
      AssetRow.liveBytes_of_eq move.after, AssetRow.liveCount_of_eq move.after,
      move.same.sizeBytes] using this

theorem Books.Exact.commit {size : Int} {checksum : Text} (h : b.Exact part) (hv : b.Valid part)
    (hstep : Books.Commit part env id size checksum b b') : b'.Exact part := by
  obtain @⟨p, a, a', get, move, partition, _⟩ := hstep
  have hbefore : a.state ≠ .available := by simp [move.before]
  have := h.put_shift hv get move.space move.partitionId partition
  simpa [AssetRow.liveBytes_of_ne hbefore, AssetRow.liveCount_of_ne hbefore, Books.acquire,
    AssetRow.liveBytes_of_eq move.after, AssetRow.liveCount_of_eq move.after,
    move.sizeBytes] using this

theorem Books.Exact.limits (h : b.Exact part) (hv : b.Valid part) (hstep : Books.Limits b b') :
    b'.Exact part := by
  cases hstep with
  | @partition space p q key usage =>
    have hat : ∀ s p', (Books.partitionAt
        { b with partitions := b.partitions.set (space, p) q } s p').usedBytes =
          (b.partitionAt s p').usedBytes ∧ (Books.partitionAt
        { b with partitions := b.partitions.set (space, p) q } s p').usedAssetCount =
          (b.partitionAt s p').usedAssetCount := by
      intro s p'
      unfold Books.partitionAt at usage ⊢
      simp only [Dict.get_set, Prod.mk.injEq]
      split
      · rename_i e
        simpa [e.1, e.2] using usage
      · exact ⟨rfl, rfl⟩
    refine ⟨fun s p' => (hat s p').1.trans (h.bytes s p'),
      fun s p' => (hat s p').2.trans (h.count s p'), h.bucket, fun s => ?_⟩
    rw [b.spread_set space p s hv key.1, usage.1, sub_self, ite_self, add_zero]
    exact h.spread s
  | @bucket space q key usage =>
    have hat : ∀ s, (Books.bucketAt { b with buckets := b.buckets.set space q } s).usedBytes =
        (b.bucketAt s).usedBytes := by
      intro s
      unfold Books.bucketAt at usage ⊢
      simp only [Dict.get_set]
      split
      · rename_i e
        simpa [e] using usage
      · rfl
    exact ⟨h.bytes, h.count, fun s => (hat s).trans (h.bucket s),
      fun s => (h.spread s).trans (hat s).symm⟩

end Exactness

/-! ### Valid books -/

section Validity

variable {part : Text → Option Text} {env : Env} {new : AssetRow → Prop} {b b' : Books}
  {id space p : Text} {a a' : AssetRow}

theorem Books.Valid.put (h : b.Valid part) (hid : a.assetId = id) (ha : a.Valid part) :
    (b.put id a).Valid part where
  row_filed id' x hx := by
    rw [rows_put, Dict.get_set] at hx
    split at hx
    · simp_all
    · exact h.row_filed id' x hx
  row_valid id' x hx := by
    rw [rows_put, Dict.get_set] at hx
    split at hx
    · simp_all
    · exact h.row_valid id' x hx
  partition_filed := h.partition_filed
  bucket_filed := h.bucket_filed

theorem Books.Valid.setPartition (h : b.Valid part) (space p : Text) {q : PartitionQuota}
    (hq : q.space = space ∧ q.partitionId = p) :
    Books.Valid part { b with partitions := b.partitions.set (space, p) q } where
  row_filed := h.row_filed
  row_valid := h.row_valid
  partition_filed key x hx := by
    simp only [Dict.get_set] at hx
    split at hx
    · simp_all
    · exact h.partition_filed key x hx
  bucket_filed := h.bucket_filed

theorem Books.Valid.setBucket (h : b.Valid part) {q : BucketQuota} (hq : q.space = space) :
    Books.Valid part { b with buckets := b.buckets.set space q } where
  row_filed := h.row_filed
  row_valid := h.row_valid
  partition_filed := h.partition_filed
  bucket_filed s x hx := by
    simp only [Dict.get_set] at hx
    split at hx
    · simp_all
    · exact h.bucket_filed s x hx

theorem Books.partitionAt_key (h : b.Valid part) (space p : Text) :
    (b.partitionAt space p).space = space ∧ (b.partitionAt space p).partitionId = p := by
  unfold Books.partitionAt
  cases hq : b.partitions.get (space, p) with
  | none => exact ⟨rfl, rfl⟩
  | some q => simpa using h.partition_filed _ _ hq

theorem Books.bucketAt_key (h : b.Valid part) (space : Text) :
    (b.bucketAt space).space = space := by
  unfold Books.bucketAt
  cases hq : b.buckets.get space with
  | none => rfl
  | some q => exact h.bucket_filed _ _ hq

theorem Books.Valid.shift (h : b.Valid part) (n c : Int) : (b.shift space p n c).Valid part := by
  have hset := h.setPartition space p
    (q := { b.partitionAt space p with
      usedBytes := (b.partitionAt space p).usedBytes + n
      usedAssetCount := (b.partitionAt space p).usedAssetCount + c })
    (Books.partitionAt_key h space p)
  exact hset.setBucket (Books.bucketAt_key h space)

theorem Books.Valid.release (h : b.Valid part) (n : Int) : (b.release space p n).Valid part := by
  have hset := h.setPartition space p
    (q := { b.partitionAt space p with
      usedBytes := max 0 ((b.partitionAt space p).usedBytes - n)
      usedAssetCount := max 0 ((b.partitionAt space p).usedAssetCount - 1) })
    (Books.partitionAt_key h space p)
  exact hset.setBucket (Books.bucketAt_key h space)

/-- A transition that keeps the content keeps a row valid, unless it revives an uncommitted or a
purged one. -/
theorem AssetRow.Valid.of_same (h : a.Valid part) (same : SameContent a a')
    (pending : a'.state = .pending → a.state = .pending)
    (live : a'.state = .available → a.sizeBytes ≠ none)
    (purged : a'.payloadDeletedAt ≠ none → a'.state = .deleted) : a'.Valid part where
  space_mem := same.space ▸ h.space_mem
  partition_known := same.partitionId ▸ h.partition_known
  size_nonneg := same.sizeBytes ▸ h.size_nonneg
  reserved_nonneg := same.reservedBytes ▸ h.reserved_nonneg
  committed hsize := by
    rw [same.sizeBytes] at hsize
    rw [same.reservedBytes]
    exact ⟨(h.committed hsize).1, fun e => (h.committed hsize).2 (pending e)⟩
  live_sized e := same.sizeBytes ▸ live e
  purged_deleted := purged

theorem Quiet.valid (h : Quiet a a') (ha : a.Valid part) : a'.Valid part := by
  cases h with
  | note same state payload =>
    refine ha.of_same same (fun e => state ▸ e) (fun e => ha.live_sized (state ▸ e)) fun e => ?_
    rw [state]
    exact ha.purged_deleted (payload ▸ e)
  | retire same before after payload =>
    refine ha.of_same same ?_ ?_ fun e => ?_
    · rcases after with e | ⟨_, e⟩ <;> simp [e]
    · rcases after with e | ⟨_, e⟩ <;> simp [e]
    · have := ha.purged_deleted (payload ▸ e)
      rcases before with e' | e' <;> simp [e'] at this
  | purge same _ after _ => exact ha.of_same same (by simp [after]) (by simp [after]) fun _ => after

theorem Leaves.valid (h : Leaves a a') (ha : a.Valid part) : a'.Valid part := by
  refine ha.of_same h.same ?_ ?_ fun e => ?_
  · rcases h.after with e | e <;> simp [e]
  · rcases h.after with e | e <;> simp [e]
  · have := ha.purged_deleted (h.payload ▸ e)
    simp [h.before] at this

theorem Restores.valid (h : Restores a a') (ha : a.Valid part) : a'.Valid part := by
  refine ha.of_same h.same (by simp [h.after]) (fun _ => h.committed.1) fun e => ?_
  have := ha.purged_deleted (h.payload ▸ e)
  simp [h.before] at this

theorem Commits.valid {size : Int} {checksum : Text} (h : Commits a a' size checksum)
    (ha : a.Valid part) : a'.Valid part where
  space_mem := h.space ▸ ha.space_mem
  partition_known := h.partitionId ▸ ha.partition_known
  size_nonneg := by simp [h.sizeBytes, h.size_nonneg]
  reserved_nonneg := by simp [h.reservedBytes]
  committed _ := ⟨h.reservedBytes, by simp [h.after]⟩
  live_sized _ := by simp [h.sizeBytes]
  purged_deleted e := by
    have := ha.purged_deleted (h.payload ▸ e)
    simp [h.before] at this

theorem Books.Valid.step (h : b.Valid part) (hstep : Books.Step part env new b b') :
    b'.Valid part := by
  cases hstep with
  | reserve _ filed valid _ _ _ _ => exact h.put filed valid
  | quiet get move =>
    exact h.put (move.same.assetId.trans (h.row_filed _ _ get)) (move.valid (h.row_valid _ _ get))
  | leave get move _ =>
    exact (h.put (move.same.assetId.trans (h.row_filed _ _ get))
      (move.valid (h.row_valid _ _ get))).release _
  | restore get move _ _ =>
    exact (h.put (move.same.assetId.trans (h.row_filed _ _ get))
      (move.valid (h.row_valid _ _ get))).shift _ _

theorem Books.Valid.commit {size : Int} {checksum : Text} (h : b.Valid part)
    (hstep : Books.Commit part env id size checksum b b') : b'.Valid part := by
  obtain ⟨get, move, _, _⟩ := hstep
  exact (h.put (move.assetId.trans (h.row_filed _ _ get))
    (move.valid (h.row_valid _ _ get))).shift _ _

theorem Books.Valid.limits (h : b.Valid part) (hstep : Books.Limits b b') : b'.Valid part := by
  cases hstep with
  | partition key _ => exact h.setPartition _ _ key
  | bucket key _ => exact h.setBucket key

end Validity

end AssetStore
