import AssetStore.Registry.Spec
import AssetStore.Admission
import Mathlib.Logic.Relation

/-! The books of the in-memory registry: which computations leave them alone, and what the quota
helpers do to them. -/

namespace AssetStore

open Lib

/-- The quota partition of a partition id. -/
def normPart (partitionId : Text) : Option Text := (normalizePartitionId partitionId).toOption

theorem normPart_eq_some {pid p : Text} :
    normPart pid = some p ↔ normalizePartitionId pid = .ok p := by
  unfold normPart
  cases normalizePartitionId pid <;> simp [Except.toOption]

/-- The books of the in-memory registry. -/
def Registry.books (r : Registry) : Books :=
  { rows := r.assets.map Asset.toAssetRow, partitions := r.partitionQuotas,
    buckets := r.bucketQuotas }

abbrev Session.books (s : Session) : Books := s.reg.books

@[simp] theorem Registry.books_partitionAt (r : Registry) (space p : Text) :
    r.books.partitionAt space p = r.partitionAt space p := rfl

@[simp] theorem Registry.books_bucketAt (r : Registry) (space : Text) :
    r.books.bucketAt space = r.bucketAt space := rfl

theorem Registry.books_get {r : Registry} {id : Text} {a : Asset} (h : r.assets.get id = some a) :
    r.books.rows.get id = some a.toAssetRow := by
  simp [books, h]

/-- Storing an asset stores its row. -/
theorem Session.books_put (s : Session) (id : Text) (a : Asset) :
    (s.put id a).books = s.books.put id a.toAssetRow := by
  simp [Session.put, Session.books, Registry.books, Books.put, Dict.map_set]

/-! ### Computations that leave the books alone -/

/-- The tables that the books are made of. -/
def Registry.core (r : Registry) :
    Dict Text Asset × Dict (Text × Text) PartitionQuota × Dict Text BucketQuota :=
  (r.assets, r.partitionQuotas, r.bucketQuotas)

theorem Registry.books_of_core {r r' : Registry} (h : r'.core = r.core) : r'.books = r.books := by
  simp only [core, Prod.mk.injEq] at h
  simp [books, h]

/-- The computation leaves the assets and the usage as they are. -/
abbrev Silent {α : Type} (m : RegM α) : Prop := Keeps Registry.core m

namespace Silent

theorem putBinding {key : Text} {b : AliasBinding} : Silent (putBinding key b) :=
  Within.updateTables fun _ => rfl

theorem audit {action : AuditAction} {target caller outcome : Text}
    {before after : List (Text × Text)} :
    Silent (audit action target caller before after outcome) :=
  Within.bind Within.utcnow fun _ => Within.updateTables fun _ => rfl

theorem aliasNameIsBlocked {space name : Text} : Silent (aliasNameIsBlocked space name) :=
  Within.aliasNameIsBlocked fun _ _ => rfl

theorem requireAliasNameAvailable {space name : Text} :
    Silent (requireAliasNameAvailable space name) :=
  Within.requireAliasNameAvailable fun _ _ => rfl

theorem requireNamesAvailable {space pid : Text} (names : List Text) :
    Silent (requireNamesAvailable space pid names) :=
  Within.requireNamesAvailable (fun _ _ => rfl) names

theorem bindNames {space pid id owner : Text} {now : Time} : ∀ names : List (Text × Bool),
    Silent (bindNames space pid id owner now names)
  | [] => Within.pure
  | _ :: rest =>
    Within.bind Within.attempt fun _ => Within.bind Within.attempt fun _ =>
      Within.bind putBinding fun _ => Within.bind audit fun _ => bindNames rest

theorem buryName {key : Text} : Silent (buryName key) :=
  Within.bind Within.tables fun _ =>
    Within.ite (Within.bind Within.utcnow fun _ => Within.bind Within.attempt fun _ =>
      Within.updateTables fun _ => rfl) Within.pure

theorem auditReservation {id owner : Text} : ∀ reserved : Option Int,
    Silent (auditReservation id owner reserved)
  | none => Within.pure
  | some _ => audit

end Silent

/-! ### Quotas -/

/-- The registry with the usage of other books. -/
def Registry.withUsage (r : Registry) (b : Books) : Registry :=
  { r with partitionQuotas := b.partitions, bucketQuotas := b.buckets }

section Quotas

variable {env : Env} {s s' : Session} {space pid p : Text} {n : Int} {exclude : Option Text}
  {a : Asset}

theorem partitionQuota_eq (hs : space ∈ storageBuckets) (hp : normPart pid = some p) :
    partitionQuota space pid s = .ok (s.reg.partitionAt space p) s := by
  have h1 : normalizeSpace space = .ok space := normalizeBucket_of_mem hs
  refine (bind_of_ok (attempt_of_ok h1)).trans ?_
  exact bind_of_ok (attempt_of_ok (normPart_eq_some.mp hp))

theorem bucketQuota_eq (hs : space ∈ storageBuckets) :
    bucketQuota space s = .ok (s.reg.bucketAt space) s := by
  have h1 : normalizeSpace space = .ok space := normalizeBucket_of_mem hs
  exact bind_of_ok (attempt_of_ok h1)

theorem putPartitionQuota_eq (space p : Text) {q : PartitionQuota}
    (hq : q.space = space ∧ q.partitionId = p) :
    putPartitionQuota q s = .ok () { s with
      reg := { s.reg with partitionQuotas := s.reg.partitionQuotas.set (space, p) q } } := by
  obtain ⟨rfl, rfl⟩ := hq
  rfl

theorem putBucketQuota_eq (space : Text) {q : BucketQuota} (hq : q.space = space) :
    putBucketQuota q s = .ok () { s with
      reg := { s.reg with bucketQuotas := s.reg.bucketQuotas.set space q } } := by
  subst hq
  rfl

theorem acquireQuota_eq (hv : s.books.Valid normPart) (hs : space ∈ storageBuckets)
    (hp : normPart pid = some p) :
    acquireQuota space pid n s =
      .ok () { s with reg := s.reg.withUsage (s.books.acquire space p n) } := by
  have hkey := Books.partitionAt_key hv space p
  have hkey' := Books.bucketAt_key hv space
  refine (bind_of_ok (partitionQuota_eq hs hp)).trans ?_
  refine (bind_of_ok (putPartitionQuota_eq space p (by exact hkey))).trans ?_
  refine (bind_of_ok (bucketQuota_eq hs)).trans ?_
  exact putBucketQuota_eq _ (by exact hkey')

theorem releaseQuota_run (hs : a.space ∈ storageBuckets) (hp : normPart a.partitionId = some p)
    (state : a.state = .available)
    (hkey : (s.reg.partitionAt a.space p).space = a.space ∧
      (s.reg.partitionAt a.space p).partitionId = p)
    (hkey' : (s.reg.bucketAt a.space).space = a.space) :
    releaseQuota a s =
      .ok () { s with reg := s.reg.withUsage (s.books.release a.space p
        (a.sizeBytes.getD 0)) } := by
  unfold releaseQuota
  rw [if_pos state]
  refine (bind_of_ok (partitionQuota_eq hs hp)).trans ?_
  refine (bind_of_ok (putPartitionQuota_eq a.space p (by exact hkey))).trans ?_
  refine (bind_of_ok (bucketQuota_eq hs)).trans ?_
  exact putBucketQuota_eq _ (by exact hkey')

theorem releaseQuota_eq (hv : s.books.Valid normPart) (hs : a.space ∈ storageBuckets)
    (hp : normPart a.partitionId = some p) (state : a.state = .available) :
    releaseQuota a s =
      .ok () { s with reg := s.reg.withUsage (s.books.release a.space p (a.sizeBytes.getD 0)) } :=
  releaseQuota_run hs hp state (Books.partitionAt_key hv a.space p) (Books.bucketAt_key hv a.space)

theorem releaseQuota_of_ne (state : a.state ≠ .available) : releaseQuota a s = .ok () s := by
  unfold releaseQuota
  rw [if_neg state]
  rfl

/-- The rows of the sized pending assets. -/
theorem sizedPending_rows (r : Registry) (space : Text) (exclude : Option Text) :
    (r.sizedPending space exclude).map Asset.toAssetRow =
      pendingRows r.books.rows space exclude := by
  simp only [pendingRows, Registry.books, Dict.values_map, List.filter_map, Registry.sizedPending,
    Function.comp_def]

theorem sumReserved_eq (l : List Asset) :
    sumReserved l = ((l.map Asset.toAssetRow).map fun a => a.reservedBytes.getD 0).sum := by
  simp [sumReserved, Function.comp_def]

theorem partition_rows (l : List Asset) (pid : Text) :
    (l.filter fun a => a.partitionId = pid).map Asset.toAssetRow =
      (l.map Asset.toAssetRow).filter fun a => a.partitionId = pid := by
  simp only [List.filter_map, Function.comp_def]

theorem sumReserved_partition {r : Registry} (hv : r.books.Valid normPart) :
    sumReserved ((r.sizedPending space exclude).filter fun a => a.partitionId = pid) =
      (others r.books.rows exclude).sum (inPartition some space pid AssetRow.pendingBytes) := by
  rw [sumReserved_eq, partition_rows, sizedPending_rows, sum_pending_partition hv.row_filed]

theorem length_partition {r : Registry} (hv : r.books.Valid normPart) :
    (((r.sizedPending space exclude).filter fun a => a.partitionId = pid).length : Int) =
      (others r.books.rows exclude).sum (inPartition some space pid AssetRow.pendingCount) := by
  rw [← length_pending_partition hv.row_filed, ← sizedPending_rows, ← partition_rows,
    List.length_map]

theorem sumReserved_space {r : Registry} (hv : r.books.Valid normPart) :
    sumReserved (r.sizedPending space exclude) =
      (others r.books.rows exclude).sum (inSpace space AssetRow.pendingBytes) := by
  rw [sumReserved_eq, sizedPending_rows, sum_pending_space hv.row_filed]

theorem physicalBytes_space {r : Registry} (hv : r.books.Valid normPart) :
    r.physicalBytes space exclude =
      (others r.books.rows exclude).sum (inSpace space AssetRow.heldBytes) := by
  rw [← sum_held_space hv.row_filed]
  simp only [heldRows, Registry.books, Dict.values_map, List.filter_map, List.map_map,
    Registry.physicalBytes, Function.comp_def]

theorem partitionQuota_eq_ok {q : PartitionQuota} (hs : space ∈ storageBuckets)
    (h : partitionQuota space pid s = .ok q s') :
    ∃ p, normPart pid = some p ∧ q = s.reg.partitionAt space p ∧ s' = s := by
  cases hp : normalizePartitionId pid with
  | error e => simp [partitionQuota, hp] at h
  | ok p =>
    have hp' := normPart_eq_some.mpr hp
    rw [partitionQuota_eq hs hp'] at h
    cases h
    exact ⟨p, hp', rfl, rfl⟩

/-- What the quota check admits. -/
theorem enforceQuota_eq_ok {u : Unit} (hv : s.books.Valid normPart) (hs : space ∈ storageBuckets)
    (h : enforceQuota env space pid n exclude s = .ok u s') :
    s' = s ∧ ∃ p, normPart pid = some p ∧ s.books.Admits env space pid p n exclude := by
  simp only [enforceQuota, bind_eq_ok, tables_eq_ok, attempt_eq_ok, raiseIf_eq_ok] at h
  obtain ⟨_, _, ⟨rfl, rfl⟩, pq, s1, hpq, _, _, ⟨hbytes, rfl⟩, _, _, ⟨hcount, rfl⟩, limits, _,
    ⟨hlimits, rfl⟩, _, _, ⟨hphys, rfl⟩, bq, s2, hbq, hbucket, rfl⟩ := h
  obtain ⟨p, hp, rfl, rfl⟩ := partitionQuota_eq_ok hs hpq
  rw [bucketQuota_eq hs] at hbq
  cases hbq
  refine ⟨rfl, p, hp, ?_, ?_, ?_, ?_⟩
  · intro q hq
    simp only [not_exists, not_and, not_le] at hbytes
    rw [← sumReserved_partition hv]
    exact hbytes q hq
  · intro q hq
    simp only [not_exists, not_and, not_lt] at hcount
    rw [← length_partition hv]
    exact hcount q hq
  · intro limits' limit hlimits' hlimit
    obtain rfl : limits = limits' := by simpa [hlimits] using hlimits'
    simp only [hlimit, Option.isSome_some, if_true, enforceCapacity, hlimits, except_bind_eq_ok,
      Except.ok.injEq, exists_eq_left', raiseIf_eq_ok, not_le] at hphys
    obtain ⟨_, _, hbelow⟩ := hphys
    rw [← physicalBytes_space hv]
    exact hbelow
  · intro q hq
    simp only [not_exists, not_and, not_le] at hbucket
    rw [← sumReserved_space hv]
    exact hbucket q hq

end Quotas

end AssetStore
