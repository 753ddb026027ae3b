import AssetStore.Registry.Moves

/-! Quota accounting over whole runs of the in-memory registry: the stored usage is exact in every
reachable state, and limits that are set before the first reservation are never exceeded. -/

namespace AssetStore

open Lib Relation

/-! ### One call -/

/-- The rows that a call may create. -/
def Op.Creates : Op → AssetRow → Prop
  | .reserveAsset newId req => Reserved newId req
  | _ => fun _ => False

def Op.SetsLimits : Op → Prop
  | .setPartitionQuota .. => True
  | .setBucketQuota .. => True
  | _ => False

def Op.IsReserve : Op → Prop
  | .reserveAsset .. => True
  | _ => False

section Call

variable {env : Env} {s : Session} {op : Op}

theorem Op.not_isReserve (h : op.SetsLimits) : ¬op.IsReserve := by
  cases op <;> first | exact h.elim | exact id

theorem Op.isReserve_of_creates {a : AssetRow} (h : op.Creates a) : op.IsReserve := by
  cases op <;> first | exact trivial | exact h.elim

theorem silent_final {α : Type} {m : RegM α} (h : Silent m) {new : AssetRow → Prop} :
    Reaches env new s (final (m s)) :=
  .of_core (h s)

/-- What a call does to the books. -/
inductive CallMoves (env : Env) (op : Op) (s s' : Session) : Prop
  | steps (h : Reaches env op.Creates s s')
  | commit {id : Text} {size : Int} {checksum : Text} (h : CommitsOr env id size checksum s s')
  | limits (sets : op.SetsLimits) (h : LimitsOr s s')

theorem Silent.reservedUploadBytes {space : Text} : Silent (reservedUploadBytes space) :=
  Within.bind Within.tables fun _ => Within.bind Within.attempt fun _ => Within.pure

theorem Silent.recentAudit {id : Option Text} {limit : Int} : Silent (recentAudit id limit) :=
  Within.bind Within.attempt fun _ => Within.bind Within.tables fun _ => Within.pure

theorem Silent.queryAssets {q : AssetQuery} : Silent (queryAssets env q) :=
  Within.bind Within.attempt fun _ => Within.bind Within.tables fun _ => Within.pure

theorem Op.moves (hv : s.books.Valid normPart) (fresh : op.Fresh s.reg) :
    CallMoves env op s (final (op.run env s)) := by
  cases op with
  | recordCapabilityIssue =>
    exact .steps (silent_final (Within.bind Silent.audit fun _ => Within.pure))
  | reserveAsset newId req =>
    exact .steps (by simpa [Op.run, Op.Creates] using reserveAsset_moves hv fresh)
  | attachAlias => exact .steps (by simpa [Op.run] using attachAlias_moves s hv)
  | commitAsset => exact .commit (by simpa [Op.run] using commitAsset_moves hv)
  | updateAnnotations => exact .steps (by simpa [Op.run] using updateAnnotations_moves s hv)
  | resolveAlias =>
    exact .steps (silent_final (Within.bind Within.resolveAlias fun _ => Within.pure))
  | detachAlias => exact .steps (by simpa [Op.run] using detachAlias_moves s hv)
  | detachMutableAlias => exact .steps (by simpa [Op.run] using detachMutableAlias_moves s hv)
  | rebindAlias => exact .steps (by simpa [Op.run] using rebindAlias_moves s hv)
  | expireAsset => exact .steps (by simpa [Op.run] using expireAsset_moves s hv)
  | deleteAsset => exact .steps (by simpa [Op.run] using deleteAsset_moves s hv)
  | setEvictionPolicy => exact .steps (by simpa [Op.run] using setEvictionPolicy_moves s hv)
  | setPartitionQuota => exact .limits trivial (by simpa [Op.run] using setPartitionQuota_moves hv)
  | setBucketQuota => exact .limits trivial (by simpa [Op.run] using setBucketQuota_moves hv)
  | getPartitionQuota =>
    exact .steps (silent_final (Within.bind Within.partitionQuota fun _ => Within.pure))
  | getBucketQuota =>
    exact .steps (silent_final (Within.bind Within.bucketQuota fun _ => Within.pure))
  | reservedUploadBytes =>
    exact .steps (silent_final (Within.bind Silent.reservedUploadBytes fun _ => Within.pure))
  | listAssets => exact .steps (.of_core rfl)
  | recordRead => exact .steps (by simpa [Op.run] using recordRead_moves s hv)
  | lifecycleUpdate => exact .steps (by simpa [Op.run] using lifecycleUpdate_moves s hv)
  | recentAudit =>
    exact .steps (silent_final (Within.bind Silent.recentAudit fun _ => Within.pure))
  | getAsset => exact .steps (silent_final (Within.bind Within.getAsset fun _ => Within.pure))
  | queryAssets =>
    exact .steps (silent_final (Within.bind Silent.queryAssets fun _ => Within.pure))
  | setAssetTtl => exact .steps (by simpa [Op.run] using setAssetTtl_moves s hv)
  | auditEvents => exact .steps (.of_core rfl)

theorem Reaches.sameLimits {new : AssetRow → Prop} {s' : Session} (h : Reaches env new s s') :
    SameLimits s.books s'.books := by
  unfold Reaches at h
  generalize s'.books = b at h ⊢
  induction h with
  | refl => exact .refl _
  | tail _ hstep ih => exact ih.trans (.step hstep)

/-- Only the two calls that set limits change them. -/
theorem Op.sameLimits (hv : s.books.Valid normPart) (fresh : op.Fresh s.reg)
    (hop : ¬op.SetsLimits) :
    SameLimits s.books (final (op.run env s)).books := by
  have hmoves : CallMoves env op s (final (op.run env s)) := Op.moves hv fresh
  cases hmoves with
  | steps h => exact h.sameLimits
  | commit h =>
    rcases h with hcore | hcommit
    · rw [books_of_core hcore]
      exact .refl _
    · exact .commit hcommit
  | limits sets _ => exact (hop sets).elim

end Call

/-! ### Exact usage -/

section Runs

variable {env : Env} {grace : Int} {r r' : Registry} {calls : List (Op × (Nat → Time))}

/-- The books are valid and exact. -/
def Sound (r : Registry) : Prop := r.books.Valid normPart ∧ r.books.Exact normPart

theorem sound_initial : Sound (Registry.initial grace) := by
  refine ⟨⟨?_, ?_, ?_, ?_⟩, ⟨?_, ?_, ?_, ?_⟩⟩
  all_goals
    intros
    simp_all [Registry.initial, Registry.books, Books.partitionAt, Books.bucketAt, Books.spread,
      defaultPartition, Dict.sum_map]

theorem Sound.reaches {new : AssetRow → Prop} {s s' : Session} (h : Sound s.reg)
    (hr : Reaches env new s s') : Sound s'.reg := by
  unfold Reaches at hr
  unfold Sound at h ⊢
  change s.books.Valid normPart ∧ s.books.Exact normPart at h
  change s'.books.Valid normPart ∧ s'.books.Exact normPart
  generalize s'.books = b at hr ⊢
  induction hr with
  | refl => exact h
  | tail _ hstep ih => exact ⟨ih.1.step hstep, ih.2.step ih.1 hstep⟩

theorem Sound.of_core {s s' : Session} (h : Sound s.reg) (hc : s'.reg.core = s.reg.core) :
    Sound s'.reg := by
  unfold Sound
  rwa [Registry.books_of_core hc]

theorem Sound.call {op : Op} {s s' : Session} (h : Sound s.reg) (hm : CallMoves env op s s') :
    Sound s'.reg := by
  cases hm with
  | steps hr => exact h.reaches hr
  | commit hc =>
    rcases hc with hc | hc
    · exact h.of_core hc
    · exact ⟨h.1.commit hc, h.2.commit h.1 hc⟩
  | limits _ hl =>
    rcases hl with hl | hl
    · exact h.of_core hl
    · exact ⟨h.1.limits hl, h.2.limits h.1 hl⟩

theorem Runs.sound (h : Runs env (Registry.initial grace) calls r) : Sound r := by
  generalize hinit : Registry.initial grace = r0 at h
  induction h with
  | nil => exact hinit ▸ sound_initial
  | snoc _ fresh ih => exact ih.call (Op.moves ih.1 fresh)

/-- The available assets that satisfy `keep`. -/
def Registry.available (r : Registry) (keep : Asset → Prop) [DecidablePred keep] : List Asset :=
  r.assets.values.filter fun a => a.state = .available ∧ keep a

def sizeSum (assets : List Asset) : Int := (assets.map fun a => a.sizeBytes.getD 0).sum

theorem sizeSum_available (r : Registry) (keep : AssetRow → Prop) [DecidablePred keep] :
    sizeSum (r.available fun a => keep a.toAssetRow) =
      r.books.rows.sum fun a => if keep a then a.liveBytes else 0 := by
  simp only [Registry.books, Dict.sum_map, sizeSum, Registry.available]
  rw [← Dict.sum_ite]
  refine Dict.sum_congr fun _ a _ => ?_
  simp only [AssetRow.liveBytes]
  split_ifs <;> simp_all

theorem length_available (r : Registry) (keep : AssetRow → Prop) [DecidablePred keep] :
    ((r.available fun a => keep a.toAssetRow).length : Int) =
      r.books.rows.sum fun a => if keep a then a.liveCount else 0 := by
  have hone : ∀ l : List Asset, (l.length : Int) = (l.map fun _ => (1 : Int)).sum := by simp
  simp only [Registry.books, Dict.sum_map, hone, Registry.available]
  rw [← Dict.sum_ite]
  refine Dict.sum_congr fun _ a _ => ?_
  simp only [AssetRow.liveCount]
  split_ifs <;> simp_all

theorem partition_usage (h : Runs env (Registry.initial grace) calls r) (space p : Text) :
    (r.partitionAt space p).usedBytes =
      sizeSum (r.available fun a => a.space = space ∧ normPart a.partitionId = some p) :=
  (h.sound.2.bytes space p).trans
    (sizeSum_available r fun a => a.space = space ∧ normPart a.partitionId = some p).symm

theorem bucket_usage (h : Runs env (Registry.initial grace) calls r) (space : Text) :
    (r.bucketAt space).usedBytes = sizeSum (r.available fun a => a.space = space) :=
  (h.sound.2.bucket space).trans (sizeSum_available r fun a => a.space = space).symm

/-- In every reachable state the usage of a partition and of a bucket is what its available assets
add up to, and releasing an available asset subtracts exactly what it counts for. -/
theorem usage_exact_of_runs (h : Runs env (Registry.initial grace) calls r) :
    (∀ space p, (r.partitionAt space p).usedBytes =
        sizeSum (r.available fun a => a.space = space ∧ normPart a.partitionId = some p) ∧
      (r.partitionAt space p).usedAssetCount =
        (r.available fun a => a.space = space ∧ normPart a.partitionId = some p).length) ∧
    (∀ space, (r.bucketAt space).usedBytes = sizeSum (r.available fun a => a.space = space) ∧
      (r.bucketAt space).usedBytes =
        ((r.partitionQuotas.values.filter fun q => q.space = space).map fun q => q.usedBytes).sum) ∧
    (∀ (s : Session) (id : Text) (stored a : Asset),
      s.reg.partitionQuotas = r.partitionQuotas → s.reg.bucketQuotas = r.bucketQuotas →
      r.assets.get id = some stored → a.state = .available → a.state = stored.state →
      a.space = stored.space → a.partitionId = stored.partitionId →
      a.sizeBytes = stored.sizeBytes →
      ∃ p, normPart a.partitionId = some p ∧ releaseQuota a s = .ok ()
        { s with
          reg := s.reg.withUsage (s.books.shift a.space p (-(a.sizeBytes.getD 0)) (-1)) }) := by
  obtain ⟨hv, hx⟩ := h.sound
  refine ⟨fun space p => ⟨partition_usage h space p, ?_⟩,
    fun space => ⟨bucket_usage h space, ?_⟩, ?_⟩
  · exact (hx.count space p).trans
      (length_available r fun a => a.space = space ∧ normPart a.partitionId = some p).symm
  · rw [← Dict.sum_ite]
    exact (hx.spread space).symm
  · intro s id stored a hpart hbucket get hlive hstate hspace hpid hsize
    have ha := hv.row_valid id _ (Registry.books_get get)
    obtain ⟨p, hp⟩ := ha.partition_known
    have hat : s.reg.partitionAt stored.space p = r.partitionAt stored.space p := by
      simp [Registry.partitionAt, hpart]
    have hat' : s.reg.bucketAt stored.space = r.bucketAt stored.space := by
      simp [Registry.bucketAt, hbucket]
    have hcovers := hx.covers hv (Registry.books_get get) (hstate ▸ hlive) hp
    rw [Registry.books_partitionAt, Registry.books_bucketAt, ← hat, ← hat', ← hsize] at hcovers
    rw [← hpid] at hp
    refine ⟨p, hp, ?_⟩
    have hkey := Books.partitionAt_key hv stored.space p
    have hkey' := Books.bucketAt_key hv stored.space
    rw [Registry.books_partitionAt, ← hat, ← hspace] at hkey
    rw [Registry.books_bucketAt, ← hat', ← hspace] at hkey'
    rw [← hspace] at hcovers
    rw [releaseQuota_run (hspace ▸ ha.space_mem) hp hlive hkey hkey',
      s.books.release_eq_shift a.space p _ hcovers.1 hcovers.2.1 hcovers.2.2]

/-! ### Limits -/

/-- The partition id of a reservation is its own normal form. -/
def Op.CanonicalPartition : Op → Prop
  | .reserveAsset _ req => normalizePartitionId req.partitionId = .ok req.partitionId
  | _ => True

/-- No asset is stored. -/
def Books.Empty (b : Books) : Prop := ∀ id, b.rows.get id = none

theorem Books.Empty.within {b : Books} (h : b.Empty) : b.Within env where
  bytes _ _ _ _ := .inl fun id a hget => by simp [h id] at hget
  count _ _ _ _ := .inl fun id a hget => by simp [h id] at hget
  bucket _ _ _ := .inl fun id a hget => by simp [h id] at hget
  physical _ _ _ _ _ := .inl fun id a hget => by simp [h id] at hget

theorem Books.Empty.canonical {b : Books} (h : b.Empty) : b.Canonical normPart :=
  fun id a hget => by simp [h id] at hget

/-- Without a reservation no asset comes into being. -/
theorem Books.Empty.call {op : Op} {s s' : Session} (h : s.books.Empty) (hop : ¬op.IsReserve)
    (hm : CallMoves env op s s') : s'.books.Empty := by
  cases hm with
  | steps hr =>
    unfold Reaches at hr
    generalize s'.books = b at hr ⊢
    induction hr with
    | refl => exact h
    | tail _ hstep ih =>
      cases hstep with
      | reserve _ _ _ _ _ spec _ => exact absurd (Op.isReserve_of_creates spec) hop
      | quiet get _ => simp [ih _] at get
      | leave get _ _ => simp [ih _] at get
      | restore get _ _ _ => simp [ih _] at get
  | commit hc =>
    rcases hc with hc | hc
    · rwa [books_of_core hc]
    · generalize s'.books = b at hc ⊢
      obtain ⟨get, _, _, _⟩ := hc
      simp [h _] at get
  | limits _ hl =>
    rcases hl with hl | hl
    · rwa [books_of_core hl]
    · generalize s'.books = b at hl ⊢
      cases hl <;> exact h

theorem Op.creates_canonical {op : Op} (h : op.CanonicalPartition) (a : AssetRow)
    (ha : op.Creates a) : normPart a.partitionId = some a.partitionId := by
  cases op with
  | reserveAsset newId req =>
    have hpid : req.partitionId = a.partitionId := by
      have := ha.2.2.1
      rw [show normalizePartitionId req.partitionId = .ok req.partitionId from h] at this
      simpa using this
    exact normPart_eq_some.mpr (hpid ▸ h)
  | _ => exact ha.elim

/-- A call that sets no limits keeps them. -/
theorem within_call {op : Op} {s s' : Session} (hs : Sound s.reg) (hw : s.books.Within env)
    (canon : s.books.Canonical normPart) (hop : op.CanonicalPartition) (hlim : ¬op.SetsLimits)
    (hm : CallMoves env op s s') : s'.books.Within env ∧ s'.books.Canonical normPart := by
  cases hm with
  | steps hr =>
    have hnew := Op.creates_canonical hop
    have hsound : s.books.Valid normPart ∧ s.books.Exact normPart := hs
    unfold Reaches at hr
    generalize s'.books = b at hr ⊢
    suffices hall : (b.Valid normPart ∧ b.Exact normPart) ∧ b.Within env ∧ b.Canonical normPart from
      hall.2
    induction hr with
    | refl => exact ⟨hsound, hw, canon⟩
    | tail _ hstep ih =>
      obtain ⟨⟨hv, hx⟩, hw, hc⟩ := ih
      exact ⟨⟨hv.step hstep, hx.step hv hstep⟩, hw.step hv hx hc hnew hstep, hc.step hnew hstep⟩
  | commit hc =>
    rcases hc with hc | hc
    · rw [books_of_core hc]
      exact ⟨hw, canon⟩
    · exact ⟨hw.commit hs.1 hs.2 canon hc, canon.commit hc⟩
  | limits sets _ => exact absurd sets hlim

/-- Limits that are fixed before the first reservation hold after every call. -/
theorem Runs.within (h : Runs env (Registry.initial grace) calls r)
    (fixed : calls.Pairwise fun c c' => c.1.IsReserve → ¬c'.1.SetsLimits)
    (canon : ∀ c ∈ calls, c.1.CanonicalPartition) :
    r.books.Within env ∧ r.books.Canonical normPart ∧
      ((∀ c ∈ calls, ¬c.1.IsReserve) → r.books.Empty) := by
  generalize hinit : Registry.initial grace = r0 at h
  induction h with
  | nil =>
    have hempty : (Registry.books r0).Empty := fun id => by
      simp [← hinit, Registry.initial, Registry.books]
    exact ⟨hempty.within, hempty.canonical, fun _ => hempty⟩
  | @snoc r2 calls op clock before fresh ih =>
    obtain ⟨hpair, -, hlast⟩ := List.pairwise_append.mp fixed
    obtain ⟨hw, hc, hempty⟩ := ih hpair fun c hcall => canon c (by simp [hcall])
    have hsound : Sound r2 := Runs.sound (hinit ▸ before)
    have hmoves : CallMoves env op ⟨r2, clock⟩ (final (op.run env ⟨r2, clock⟩)) :=
      Op.moves hsound.1 fresh
    have hempty' : (∀ c ∈ calls ++ [(op, clock)], ¬c.1.IsReserve) →
        (op.exec env clock r2).books.Empty := fun hnone =>
      (hempty fun c hcall => hnone c (by simp [hcall])).call (hnone (op, clock) (by simp)) hmoves
    by_cases hlim : op.SetsLimits
    · -- no reservation came before, so there is nothing to limit yet
      have hnone : ∀ c ∈ calls, ¬c.1.IsReserve := fun c hcall hres =>
        hlast c hcall (op, clock) (by simp) hres hlim
      have hstill := (hempty hnone).call (Op.not_isReserve hlim) hmoves
      exact ⟨hstill.within, hstill.canonical, hempty'⟩
    · obtain ⟨hw', hc'⟩ := within_call hsound hw hc (canon (op, clock) (by simp)) hlim hmoves
      exact ⟨hw', hc', hempty'⟩

/-- The pending assets of known size that satisfy `keep`. -/
def Registry.reserved (r : Registry) (keep : Asset → Prop) [DecidablePred keep] : List Asset :=
  r.assets.values.filter fun a => (a.state = .pending ∧ a.reservedBytes ≠ none) ∧ keep a

theorem sumReserved_reserved (r : Registry) (keep : AssetRow → Prop) [DecidablePred keep] :
    sumReserved (r.reserved fun a => keep a.toAssetRow) =
      r.books.rows.sum fun a => if keep a then a.pendingBytes else 0 := by
  simp only [Registry.books, Dict.sum_map, sumReserved, Registry.reserved]
  rw [← Dict.sum_ite]
  refine Dict.sum_congr fun _ a _ => ?_
  simp only [AssetRow.pendingBytes]
  cases hr : a.reservedBytes <;> split_ifs <;> simp_all

theorem length_reserved (r : Registry) (keep : AssetRow → Prop) [DecidablePred keep] :
    ((r.reserved fun a => keep a.toAssetRow).length : Int) =
      r.books.rows.sum fun a => if keep a then a.pendingCount else 0 := by
  have hone : ∀ l : List Asset, (l.length : Int) = (l.map fun _ => (1 : Int)).sum := by simp
  simp only [Registry.books, Dict.sum_map, hone, Registry.reserved]
  rw [← Dict.sum_ite]
  refine Dict.sum_congr fun _ a _ => ?_
  simp only [AssetRow.pendingCount]
  split_ifs <;> simp_all

/-- Nothing accounted, as lists. -/
theorem lists_empty {r : Registry} {keep : AssetRow → Prop} [DecidablePred keep]
    (h : ∀ id a, r.books.rows.get id = some a → keep a → ¬a.Accounted) :
    (r.available fun a => keep a.toAssetRow) = [] ∧
      (r.reserved fun a => keep a.toAssetRow) = [] := by
  have hall : ∀ a ∈ r.assets.values, keep a.toAssetRow → ¬a.Accounted := fun a ha hkeep => by
    obtain ⟨id, hget⟩ := Dict.mem_values.mp ha
    exact h id _ (Registry.books_get hget) hkeep
  constructor
  · refine List.filter_eq_nil_iff.mpr fun a ha => ?_
    simp only [decide_eq_true_eq]
    exact fun ⟨hstate, hkeep⟩ => hall a ha hkeep (.inl hstate)
  · refine List.filter_eq_nil_iff.mpr fun a ha => ?_
    simp only [decide_eq_true_eq]
    exact fun ⟨hstate, hkeep⟩ => hall a ha hkeep (.inr hstate)

/-- What stays below a byte limit, in terms of the available and the reserved assets. -/
theorem bytes_below (keep : AssetRow → Prop) [DecidablePred keep] {bound : Rat}
    (h : Below keep AssetRow.Accounted AssetRow.accountedBytes bound r.books.rows) :
    ((r.available fun a => keep a.toAssetRow) = [] ∧
        (r.reserved fun a => keep a.toAssetRow) = []) ∨
      ((sizeSum (r.available fun a => keep a.toAssetRow) +
        sumReserved (r.reserved fun a => keep a.toAssetRow) : Int) : Rat) < bound := by
  refine h.imp lists_empty fun hlt => ?_
  unfold AssetRow.accountedBytes at hlt
  rwa [sum_split, ← sizeSum_available, ← sumReserved_reserved] at hlt

theorem count_below (keep : AssetRow → Prop) [DecidablePred keep] {q : Int}
    (h : Below keep AssetRow.Accounted AssetRow.accountedCount (q + 1) r.books.rows) :
    ((r.available fun a => keep a.toAssetRow) = [] ∧
        (r.reserved fun a => keep a.toAssetRow) = []) ∨
      ((r.available fun a => keep a.toAssetRow).length : Int) +
        (r.reserved fun a => keep a.toAssetRow).length ≤ q := by
  refine h.imp lists_empty fun hlt => ?_
  unfold AssetRow.accountedCount at hlt
  rw [sum_split, ← length_available, ← length_reserved] at hlt
  have : ((r.available fun a => keep a.toAssetRow).length : Int) +
      (r.reserved fun a => keep a.toAssetRow).length < q + 1 := by exact_mod_cast hlt
  omega

/-- Limits that are fixed before the first reservation are never exceeded: the available and the
reserved bytes of a partition and of a bucket, the number of assets of a partition, and the bytes
that are not purged. -/
theorem limits_hold_of_runs (h : Runs env (Registry.initial grace) calls r)
    (fixed : calls.Pairwise fun c c' => c.1.IsReserve → ¬c'.1.SetsLimits)
    (canon : ∀ c ∈ calls, c.1.CanonicalPartition) :
    (∀ space p, ∀ q ∈ (r.partitionAt space p).quotaBytes,
      ((r.available fun a => a.space = space ∧ a.partitionId = p) = [] ∧
        (r.reserved fun a => a.space = space ∧ a.partitionId = p) = []) ∨
      ((sizeSum (r.available fun a => a.space = space ∧ a.partitionId = p) +
        sumReserved (r.reserved fun a => a.space = space ∧ a.partitionId = p) : Int) : Rat) <
          q * (21 / 20)) ∧
    (∀ space p, ∀ q ∈ (r.partitionAt space p).quotaAssetCount,
      ((r.available fun a => a.space = space ∧ a.partitionId = p) = [] ∧
        (r.reserved fun a => a.space = space ∧ a.partitionId = p) = []) ∨
      ((r.available fun a => a.space = space ∧ a.partitionId = p).length : Int) +
        (r.reserved fun a => a.space = space ∧ a.partitionId = p).length ≤ q) ∧
    (∀ space, ∀ q ∈ (r.bucketAt space).quotaBytes,
      ((r.available fun a => a.space = space) = [] ∧ (r.reserved fun a => a.space = space) = []) ∨
      ((sizeSum (r.available fun a => a.space = space) +
        sumReserved (r.reserved fun a => a.space = space) : Int) : Rat) <
          q * (r.bucketAt space).hardCeiling) ∧
    (∀ limits space limit, capacityLimits env = .ok limits → limits.lookup space = some limit →
      (∀ a ∈ r.assets.values, a.space = space → a.payloadDeletedAt = none →
        a.sizeBytes = none ∧ a.reservedBytes = none) ∨
      (r.physicalBytes space none : Rat) < limit * env.capacityHardRatio) := by
  obtain ⟨hw, -, -⟩ := h.within fixed canon
  refine ⟨fun space p q hq => ?_, fun space p q hq => ?_, fun space q hq => ?_,
    fun limits space limit hl hlimit => ?_⟩
  · exact bytes_below (fun a => a.space = space ∧ a.partitionId = p) (hw.bytes space p q hq)
  · exact count_below (fun a => a.space = space ∧ a.partitionId = p) (hw.count space p q hq)
  · exact bytes_below (fun a => a.space = space) (hw.bucket space q hq)
  · refine (hw.physical limits space limit hl hlimit).imp
      (fun hnone a ha hspace hp => ?_) fun hlt => ?_
    · obtain ⟨id, hget⟩ := Dict.mem_values.mp ha
      have := hnone id _ (Registry.books_get hget) hspace
      simpa [AssetRow.Held, hp] using this
    · rw [physicalBytes_space h.sound.1]
      exact hlt

end Runs

/-! A registry after a sized reservation and its commit. -/

def reserveCall : Op :=
  .reserveAsset "a1".toList
    { space := "cache".toList, partitionId := "m".toList, aliases := [("x".toList, false)]
      ownerServiceId := "svc".toList, reservedBytes := some 3 }

def commitCall : Op := .commitAsset "a1".toList 3 "sha256:00".toList "svc".toList none none

def uploaded : Registry :=
  commitCall.exec plainEnv (fun _ => 1) (reserveCall.exec plainEnv (fun _ => 0) (.initial 0))

theorem uploaded_runs :
    Runs plainEnv (.initial 0) [(reserveCall, fun _ => 0), (commitCall, fun _ => 1)] uploaded := by
  have reserved : Runs plainEnv (.initial 0) ([] ++ [(reserveCall, fun _ => 0)])
      (reserveCall.exec plainEnv (fun _ => 0) (.initial 0)) := .snoc .nil rfl
  exact reserved.snoc trivial

def limitCall : Op :=
  .setPartitionQuota "cache".toList "m".toList (some 4) (some 1) none "svc".toList

def limitedCalls : List (Op × (Nat → Time)) :=
  [(limitCall, fun _ => 0), (reserveCall, fun _ => 0), (commitCall, fun _ => 1)]

def limited : Registry :=
  commitCall.exec plainEnv (fun _ => 1) (reserveCall.exec plainEnv (fun _ => 0)
    (limitCall.exec plainEnv (fun _ => 0) (.initial 0)))

theorem limited_runs : Runs plainEnv (.initial 0) limitedCalls limited := by
  have limits : Runs plainEnv (.initial 0) ([] ++ [(limitCall, fun _ => 0)])
      (limitCall.exec plainEnv (fun _ => 0) (.initial 0)) := .snoc .nil trivial
  have reserved : Runs plainEnv (.initial 0)
      (([] ++ [(limitCall, fun _ => 0)]) ++ [(reserveCall, fun _ => 0)])
      (reserveCall.exec plainEnv (fun _ => 0)
        (limitCall.exec plainEnv (fun _ => 0) (.initial 0))) :=
    limits.snoc rfl
  exact reserved.snoc trivial

theorem limits_hold_limited :
    (limited.partitionAt "cache".toList "m".toList).quotaAssetCount = some 1 ∧
      (limited.available fun a => a.space = "cache".toList ∧ a.partitionId = "m".toList) ≠ [] ∧
      ((limited.available fun a => a.space = "cache".toList ∧ a.partitionId = "m".toList).length :
        Int)
        + (limited.reserved fun a => a.space = "cache".toList ∧ a.partitionId = "m".toList).length
          ≤ 1 := by
  have hquota : (limited.partitionAt "cache".toList "m".toList).quotaAssetCount = some 1 := by
    decide +kernel
  have hsome : (limited.available fun a =>
      a.space = "cache".toList ∧ a.partitionId = "m".toList) ≠ [] := by decide +kernel
  have hfixed : limitedCalls.Pairwise fun c c' => c.1.IsReserve → ¬c'.1.SetsLimits := by
    simp [limitedCalls, limitCall, reserveCall, commitCall, Op.IsReserve, Op.SetsLimits]
  have hcanon : ∀ c ∈ limitedCalls, c.1.CanonicalPartition := by
    simp only [limitedCalls, List.mem_cons, List.not_mem_nil, or_false, forall_eq_or_imp, forall_eq]
    exact ⟨trivial, rfl, trivial⟩
  have hcount := (limits_hold_of_runs limited_runs hfixed hcanon).2.1
    "cache".toList "m".toList 1 (by rw [hquota]; rfl)
  exact ⟨hquota, hsome, hcount.resolve_left fun h => hsome h.1⟩

theorem usage_exact_uploaded :
    (uploaded.partitionAt "cache".toList "m".toList).usedBytes =
        sizeSum (uploaded.available fun a =>
          a.space = "cache".toList ∧ normPart a.partitionId = some "m".toList) ∧
      (uploaded.partitionAt "cache".toList "m".toList).usedBytes = 3 :=
  ⟨((usage_exact_of_runs uploaded_runs).1 _ _).1, by decide⟩

end AssetStore
