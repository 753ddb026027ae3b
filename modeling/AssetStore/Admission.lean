import AssetStore.Accounts

/-! The limits as an invariant of the books: a step that only lowers what a limit counts keeps it,
and a step that raises it is admitted by exactly the check that keeps it. -/

namespace AssetStore

open Lib

/-- Either nothing that `counts` is in `scope`, or what is there stays below the bound. -/
def Below (scope counts : AssetRow → Prop) [DecidablePred scope] (charge : AssetRow → Int)
    (bound : Rat) (rows : Dict Text AssetRow) : Prop :=
  (∀ id a, rows.get id = some a → scope a → ¬counts a) ∨
    ((rows.sum fun a => if scope a then charge a else 0 : Int) : Rat) < bound

section Below

variable {scope counts : AssetRow → Prop} [DecidablePred scope] {charge : AssetRow → Int}
  {bound : Rat} {rows : Dict Text AssetRow} {id : Text} {a : AssetRow}

/-- A row that charges no more than the one it replaces keeps the bound. -/
theorem Below.put_le (h : Below scope counts charge bound rows)
    (hcharge : (if scope a then charge a else 0) ≤
      rows.term (fun a => if scope a then charge a else 0) id)
    (hcounts : scope a → counts a → ∃ old, rows.get id = some old ∧ scope old ∧ counts old) :
    Below scope counts charge bound (rows.set id a) := by
  rcases h with h | h
  · refine .inl fun id' x hx hscope hcount => ?_
    rw [Dict.get_set] at hx
    split at hx
    · obtain rfl : a = x := by simpa using hx
      obtain ⟨old, hold, hs, hc⟩ := hcounts hscope hcount
      exact h id old hold hs hc
    · exact h id' x hx hscope hcount
  · refine .inr (lt_of_le_of_lt ?_ h)
    rw [Dict.sum_set]
    exact_mod_cast by omega

/-- A row that is admitted beside the others keeps the bound. -/
theorem Below.put_admitted
    (h : (((rows.erase id).sum fun a => if scope a then charge a else 0 : Int) : Rat) +
      (if scope a then charge a else 0 : Int) < bound) :
    Below scope counts charge bound (rows.set id a) := by
  refine .inr ?_
  rw [Dict.sum_set_erase]
  exact_mod_cast h

end Below

/-! ### The sums of an admission, as an aggregate query has them -/

/-- The sized uploads of a space that are still pending, except `exclude`. -/
def pendingRows (rows : Dict Text AssetRow) (space : Text) (exclude : Option Text) :
    List AssetRow :=
  rows.values.filter fun a =>
    a.space = space ∧ a.state = .pending ∧ a.reservedBytes ≠ none ∧ exclude ≠ some a.assetId

/-- The assets of a space with bytes on the medium, except `exclude`. -/
def heldRows (rows : Dict Text AssetRow) (space : Text) (exclude : Option Text) : List AssetRow :=
  rows.values.filter fun a =>
    a.space = space ∧ a.payloadDeletedAt = none ∧ exclude ≠ some a.assetId

section Aggregates

variable {rows : Dict Text AssetRow} {space p : Text} {exclude : Option Text}

/-- The rows beside the excluded one, as a filter. -/
theorem sum_others (filed : ∀ id a, rows.get id = some a → a.assetId = id)
    (exclude : Option Text) (f : AssetRow → Int) :
    (others rows exclude).sum f = rows.sum fun a => if exclude = some a.assetId then 0
      else f a := by
  cases exclude with
  | none => simp [others]
  | some id =>
    have hcongr : (rows.erase id).sum f =
        (rows.erase id).sum fun a => if some id = some a.assetId then 0 else f a := by
      refine Dict.sum_congr fun id' a ha => ?_
      have hne : id' ≠ id := by
        rintro rfl
        simp at ha
      rw [Dict.get_erase_ne _ hne] at ha
      rw [if_neg]
      rw [filed id' a ha]
      simpa using hne.symm
    change (rows.erase id).sum f = _
    rw [hcongr, Dict.sum_erase]
    cases hget : rows.get id with
    | none => simp [hget]
    | some a => simp [Dict.term_of_get hget, filed id a hget]

theorem sum_pending_partition (filed : ∀ id a, rows.get id = some a → a.assetId = id) :
    (((pendingRows rows space exclude).filter fun a => a.partitionId = p).map fun a =>
      a.reservedBytes.getD 0).sum =
        (others rows exclude).sum (inPartition some space p AssetRow.pendingBytes) := by
  rw [sum_others filed]
  simp only [pendingRows, List.filter_filter, ← Bool.decide_and]
  rw [← Dict.sum_ite]
  refine Dict.sum_congr fun _ a _ => ?_
  simp only [inPartition, AssetRow.pendingBytes, Option.some.injEq]
  cases hr : a.reservedBytes <;> split_ifs <;> simp_all

theorem length_pending_partition (filed : ∀ id a, rows.get id = some a → a.assetId = id) :
    (((pendingRows rows space exclude).filter fun a => a.partitionId = p).length : Int) =
      (others rows exclude).sum (inPartition some space p AssetRow.pendingCount) := by
  rw [sum_others filed]
  have hone : ∀ l : List AssetRow, (l.length : Int) = (l.map fun _ => (1 : Int)).sum := by simp
  simp only [hone, pendingRows, List.filter_filter, ← Bool.decide_and]
  rw [← Dict.sum_ite]
  refine Dict.sum_congr fun _ a _ => ?_
  simp only [inPartition, AssetRow.pendingCount, Option.some.injEq]
  split_ifs <;> simp_all

theorem sum_pending_space (filed : ∀ id a, rows.get id = some a → a.assetId = id) :
    ((pendingRows rows space exclude).map fun a => a.reservedBytes.getD 0).sum =
      (others rows exclude).sum (inSpace space AssetRow.pendingBytes) := by
  rw [sum_others filed]
  simp only [pendingRows]
  rw [← Dict.sum_ite]
  refine Dict.sum_congr fun _ a _ => ?_
  simp only [inSpace, AssetRow.pendingBytes]
  cases hr : a.reservedBytes <;> split_ifs <;> simp_all

theorem sum_held_space (filed : ∀ id a, rows.get id = some a → a.assetId = id) :
    ((heldRows rows space exclude).map fun a => a.physicalBytes).sum =
      (others rows exclude).sum (inSpace space AssetRow.heldBytes) := by
  rw [sum_others filed]
  simp only [heldRows]
  rw [← Dict.sum_ite]
  refine Dict.sum_congr fun _ a _ => ?_
  simp only [inSpace, AssetRow.heldBytes]
  split_ifs <;> simp_all

end Aggregates

/-! ### The limits -/

namespace AssetRow

/-- Available, or pending with a known size. -/
def Accounted (a : AssetRow) : Prop :=
  a.state = .available ∨ a.state = .pending ∧ a.reservedBytes ≠ none

def accountedBytes (a : AssetRow) : Int := a.liveBytes + a.pendingBytes

def accountedCount (a : AssetRow) : Int := a.liveCount + a.pendingCount

/-- Has bytes on the medium, or room reserved for them. -/
def Held (a : AssetRow) : Prop :=
  a.payloadDeletedAt = none ∧ (a.sizeBytes ≠ none ∨ a.reservedBytes ≠ none)

end AssetRow

/-- Every configured limit holds. -/
structure Books.Within (env : Env) (b : Books) : Prop where
  bytes : ∀ space p, ∀ q ∈ (b.partitionAt space p).quotaBytes,
    Below (fun a => a.space = space ∧ a.partitionId = p) AssetRow.Accounted
      AssetRow.accountedBytes (q * partitionHardRatio) b.rows
  count : ∀ space p, ∀ q ∈ (b.partitionAt space p).quotaAssetCount,
    Below (fun a => a.space = space ∧ a.partitionId = p) AssetRow.Accounted
      AssetRow.accountedCount (q + 1) b.rows
  bucket : ∀ space, ∀ q ∈ (b.bucketAt space).quotaBytes,
    Below (fun a => a.space = space) AssetRow.Accounted AssetRow.accountedBytes
      (q * (b.bucketAt space).hardCeiling) b.rows
  physical : ∀ limits space limit, capacityLimits env = .ok limits →
    limits.lookup space = some limit →
    Below (fun a => a.space = space) AssetRow.Held AssetRow.heldBytes
      (limit * env.capacityHardRatio) b.rows

/-- The limits of two states of the books agree. -/
structure SameLimits (b b' : Books) : Prop where
  bytes : ∀ space p, (b'.partitionAt space p).quotaBytes = (b.partitionAt space p).quotaBytes
  count : ∀ space p,
    (b'.partitionAt space p).quotaAssetCount = (b.partitionAt space p).quotaAssetCount
  sweep : ∀ space p,
    (b'.partitionAt space p).evictionSweepEnabled = (b.partitionAt space p).evictionSweepEnabled
  bucket : ∀ space, (b'.bucketAt space).quotaBytes = (b.bucketAt space).quotaBytes
  warn : ∀ space, (b'.bucketAt space).warnThreshold = (b.bucketAt space).warnThreshold
  ceiling : ∀ space, (b'.bucketAt space).hardCeiling = (b.bucketAt space).hardCeiling

section Limits

variable {part : Text → Option Text} {env : Env} {new : AssetRow → Prop} {b b' : Books}
  {id space p : Text} {a a' : AssetRow}

/-- The limits are read off the usage tables. -/
theorem SameLimits.of_tables (partitions : b'.partitions = b.partitions)
    (buckets : b'.buckets = b.buckets) : SameLimits b b' := by
  have hpartition : ∀ space p, b'.partitionAt space p = b.partitionAt space p := by
    simp [Books.partitionAt, partitions]
  have hbucket : ∀ space, b'.bucketAt space = b.bucketAt space := by
    simp [Books.bucketAt, buckets]
  constructor <;> simp only [hpartition, hbucket, implies_true]

theorem SameLimits.put : SameLimits b (b.put id a) := .of_tables rfl rfl

theorem SameLimits.shift (h : SameLimits b b') (n c : Int) :
    SameLimits b (b'.shift space p n c) := by
  constructor
  · intro s q
    rw [Books.partitionAt_shift, ← h.bytes]
    split <;> simp_all
  · intro s q
    rw [Books.partitionAt_shift, ← h.count]
    split <;> simp_all
  · intro s q
    rw [Books.partitionAt_shift, ← h.sweep]
    split <;> simp_all
  · intro s
    rw [Books.bucketAt_shift, ← h.bucket]
    split <;> simp_all
  · intro s
    rw [Books.bucketAt_shift, ← h.warn]
    split <;> simp_all
  · intro s
    rw [Books.bucketAt_shift, ← h.ceiling]
    split <;> simp_all

theorem SameLimits.release (h : SameLimits b b') (n : Int) :
    SameLimits b (b'.release space p n) := by
  constructor
  · intro s q
    rw [← h.bytes]
    simp only [Books.partitionAt, Books.release, Dict.get_set, Prod.mk.injEq]
    split <;> simp_all
  · intro s q
    rw [← h.count]
    simp only [Books.partitionAt, Books.release, Dict.get_set, Prod.mk.injEq]
    split <;> simp_all
  · intro s q
    rw [← h.sweep]
    simp only [Books.partitionAt, Books.release, Dict.get_set, Prod.mk.injEq]
    split <;> simp_all
  · intro s
    rw [← h.bucket]
    simp only [Books.bucketAt, Books.release, Dict.get_set]
    split <;> simp_all
  · intro s
    rw [← h.warn]
    simp only [Books.bucketAt, Books.release, Dict.get_set]
    split <;> simp_all
  · intro s
    rw [← h.ceiling]
    simp only [Books.bucketAt, Books.release, Dict.get_set]
    split <;> simp_all

theorem SameLimits.refl (b : Books) : SameLimits b b := .of_tables rfl rfl

theorem SameLimits.trans {b'' : Books} (h : SameLimits b b') (h' : SameLimits b' b'') :
    SameLimits b b'' where
  bytes space p := (h'.bytes space p).trans (h.bytes space p)
  count space p := (h'.count space p).trans (h.count space p)
  sweep space p := (h'.sweep space p).trans (h.sweep space p)
  bucket space := (h'.bucket space).trans (h.bucket space)
  warn space := (h'.warn space).trans (h.warn space)
  ceiling space := (h'.ceiling space).trans (h.ceiling space)

/-- No lifecycle transition changes a limit. -/
theorem SameLimits.step (h : Books.Step part env new b b') : SameLimits b b' := by
  cases h with
  | reserve => exact .put
  | quiet => exact .put
  | leave => exact SameLimits.put.release _
  | restore => exact SameLimits.put.shift _ _

theorem SameLimits.commit {size : Int} {checksum : Text}
    (h : Books.Commit part env id size checksum b b') :
    SameLimits b b' := by
  cases h
  exact SameLimits.put.shift _ _

/-! ### Charges are not negative -/

theorem AssetRow.Valid.pendingBytes_nonneg (h : a.Valid part) : 0 ≤ a.pendingBytes := by
  unfold AssetRow.pendingBytes
  split
  · cases hn : a.reservedBytes with
    | none => simp
    | some n => simpa using h.reserved_nonneg n hn
  · exact le_refl 0

theorem AssetRow.Valid.accountedBytes_nonneg (h : a.Valid part) : 0 ≤ a.accountedBytes :=
  Int.add_nonneg h.liveBytes_nonneg h.pendingBytes_nonneg

theorem AssetRow.accountedCount_nonneg (a : AssetRow) : 0 ≤ a.accountedCount := by
  unfold AssetRow.accountedCount AssetRow.liveCount AssetRow.pendingCount
  split <;> split <;> simp

theorem AssetRow.Valid.heldBytes_nonneg (h : a.Valid part) : 0 ≤ a.heldBytes := by
  unfold AssetRow.heldBytes AssetRow.physicalBytes
  split
  · cases hn : a.sizeBytes with
    | some n => simpa using h.size_nonneg n hn
    | none =>
      cases hm : a.reservedBytes with
      | none => simp
      | some n => simpa using h.reserved_nonneg n hm
  · exact le_refl 0

/-- What a row charges is at least zero. -/
theorem term_nonneg (hv : b.Valid part) {scope : AssetRow → Prop} [DecidablePred scope]
    {charge : AssetRow → Int} (hcharge : ∀ a : AssetRow, a.Valid part → 0 ≤ charge a) :
    0 ≤ b.rows.term (fun a => if scope a then charge a else 0) id := by
  cases hget : b.rows.get id with
  | none => simp [hget]
  | some a =>
    rw [Dict.term_of_get hget]
    split
    · exact hcharge a (hv.row_valid id a hget)
    · exact le_refl 0

/-! ### Transitions that charge no more -/

/-- The new row counts for no more than the old one. -/
structure Lighter (a a' : AssetRow) : Prop where
  space : a'.space = a.space
  partitionId : a'.partitionId = a.partitionId
  accounted : a'.Accounted → a.Accounted
  bytes : a'.accountedBytes ≤ a.accountedBytes
  count : a'.accountedCount ≤ a.accountedCount
  held : a'.Held → a.Held
  heldBytes : a'.heldBytes ≤ a.heldBytes

theorem Below.put_lighter {counts : AssetRow → Prop} {charge : AssetRow → Int} {bound : Rat}
    {scope : AssetRow → Prop} [DecidablePred scope]
    (h : Below scope counts charge bound b.rows) (get : b.rows.get id = some a)
    (hscope : scope a' ↔ scope a) (hcounts : counts a' → counts a)
    (hcharge : charge a' ≤ charge a) :
    Below scope counts charge bound (b.rows.set id a') := by
  refine h.put_le ?_ fun hs hc => ⟨a, get, hscope.mp hs, hcounts hc⟩
  rw [Dict.term_of_get get]
  by_cases hs : scope a
  · simpa [hs, hscope] using hcharge
  · simp [hs, hscope]

theorem Books.Within.put_lighter (h : b.Within env) (get : b.rows.get id = some a)
    (light : Lighter a a') : (b.put id a').Within env where
  bytes s q lim hlim :=
    (h.bytes s q lim hlim).put_lighter get (by rw [light.space, light.partitionId])
      light.accounted light.bytes
  count s q lim hlim :=
    (h.count s q lim hlim).put_lighter get (by rw [light.space, light.partitionId])
      light.accounted light.count
  bucket s lim hlim :=
    (h.bucket s lim hlim).put_lighter get (by rw [light.space]) light.accounted light.bytes
  physical limits s lim h1 h2 :=
    (h.physical limits s lim h1 h2).put_lighter get (by rw [light.space]) light.held light.heldBytes

/-- The limits depend on the usage tables only through the limits stored there. -/
theorem Books.Within.of_limits (h : b.Within env) (same : SameLimits b b')
    (rows : b'.rows = b.rows) : b'.Within env where
  bytes s q := by
    rw [same.bytes, rows]
    exact h.bytes s q
  count s q := by
    rw [same.count, rows]
    exact h.count s q
  bucket s := by
    rw [same.bucket, same.ceiling, rows]
    exact h.bucket s
  physical := rows ▸ h.physical

/-! ### Transitions that are admitted -/

/-- The new row fits beside the others. -/
structure Fits (env : Env) (b : Books) (id : Text) (a : AssetRow) : Prop where
  bytes : ∀ q ∈ (b.partitionAt a.space a.partitionId).quotaBytes,
    (((b.rows.erase id).sum fun x =>
      if x.space = a.space ∧ x.partitionId = a.partitionId then x.accountedBytes else 0 : Int) :
        Rat) +
      a.accountedBytes < q * partitionHardRatio
  count : ∀ q ∈ (b.partitionAt a.space a.partitionId).quotaAssetCount,
    (((b.rows.erase id).sum fun x =>
      if x.space = a.space ∧ x.partitionId = a.partitionId then x.accountedCount else 0 : Int) :
        Rat) +
      a.accountedCount < q + 1
  bucket : ∀ q ∈ (b.bucketAt a.space).quotaBytes,
    (((b.rows.erase id).sum fun x => if x.space = a.space then x.accountedBytes else 0 : Int) :
      Rat) +
      a.accountedBytes < q * (b.bucketAt a.space).hardCeiling
  physical : ∀ limits limit, capacityLimits env = .ok limits → limits.lookup a.space = some limit →
    (((b.rows.erase id).sum fun x => if x.space = a.space then x.heldBytes else 0 : Int) : Rat) +
      a.heldBytes < limit * env.capacityHardRatio

/-- A row that charges nothing keeps the bound. -/
theorem Below.put_idle {counts : AssetRow → Prop} {charge : AssetRow → Int} {bound : Rat}
    {scope : AssetRow → Prop} [DecidablePred scope]
    (h : Below scope counts charge bound b.rows) (hv : b.Valid part)
    (hcharge : ∀ a : AssetRow, a.Valid part → 0 ≤ charge a)
    (idle : scope a → charge a = 0 ∧ ¬counts a) :
    Below scope counts charge bound (b.rows.set id a) := by
  refine h.put_le ?_ fun hs hc => absurd hc (idle hs).2
  have hterm : 0 ≤ b.rows.term (fun a => if scope a then charge a else 0) id :=
    term_nonneg hv hcharge
  split
  · rename_i hs
    rwa [(idle hs).1]
  · exact hterm

theorem Books.Within.put_idle (h : b.Within env) (hv : b.Valid part)
    (bytes : a.accountedBytes = 0) (count : a.accountedCount = 0) (held : a.heldBytes = 0)
    (notAccounted : ¬a.Accounted) (notHeld : ¬a.Held) : (b.put id a).Within env where
  bytes s q lim hlim := (h.bytes s q lim hlim).put_idle hv
    (fun _ => AssetRow.Valid.accountedBytes_nonneg) fun _ => ⟨bytes, notAccounted⟩
  count s q lim hlim := (h.count s q lim hlim).put_idle hv
    (fun a _ => a.accountedCount_nonneg) fun _ => ⟨count, notAccounted⟩
  bucket s lim hlim := (h.bucket s lim hlim).put_idle hv
    (fun _ => AssetRow.Valid.accountedBytes_nonneg) fun _ => ⟨bytes, notAccounted⟩
  physical limits s lim h1 h2 := (h.physical limits s lim h1 h2).put_idle hv
    (fun _ => AssetRow.Valid.heldBytes_nonneg) fun _ => ⟨held, notHeld⟩

theorem Books.Within.put_fits (h : b.Within env) (hv : b.Valid part) (fits : Fits env b id a) :
    (b.put id a).Within env where
  bytes s q lim hlim := by
    by_cases hs : a.space = s ∧ a.partitionId = q
    · obtain ⟨rfl, rfl⟩ := hs
      exact Below.put_admitted (by simpa using fits.bytes lim hlim)
    · exact (h.bytes s q lim hlim).put_idle hv (fun _ => AssetRow.Valid.accountedBytes_nonneg)
        fun e => absurd e hs
  count s q lim hlim := by
    by_cases hs : a.space = s ∧ a.partitionId = q
    · obtain ⟨rfl, rfl⟩ := hs
      exact Below.put_admitted (by simpa using fits.count lim hlim)
    · exact (h.count s q lim hlim).put_idle hv (fun a _ => a.accountedCount_nonneg)
        fun e => absurd e hs
  bucket s lim hlim := by
    by_cases hs : a.space = s
    · subst hs
      exact Below.put_admitted (by simpa using fits.bucket lim hlim)
    · exact (h.bucket s lim hlim).put_idle hv (fun _ => AssetRow.Valid.accountedBytes_nonneg)
        fun e => absurd e hs
  physical limits s lim h1 h2 := by
    by_cases hs : a.space = s
    · subst hs
      exact Below.put_admitted (by simpa using fits.physical limits lim h1 h2)
    · exact (h.physical limits s lim h1 h2).put_idle hv
        (fun _ => AssetRow.Valid.heldBytes_nonneg) fun e => absurd e hs

/-- Partition ids count under their own name. -/
def Books.Canonical (part : Text → Option Text) (b : Books) : Prop :=
  ∀ id a, b.rows.get id = some a → part a.partitionId = some a.partitionId

/-- The shares of two kinds add up. -/
theorem sum_split (rows : Dict Text AssetRow) (scope : AssetRow → Prop) [DecidablePred scope]
    (f g : AssetRow → Int) :
    (rows.sum fun x => if scope x then f x + g x else 0) =
      (rows.sum fun x => if scope x then f x else 0) +
        rows.sum fun x => if scope x then g x else 0 := by
  rw [← Dict.sum_add]
  refine Dict.sum_congr fun _ x _ => ?_
  split <;> simp

/-- What is stored as used is used by the other rows, when the row itself is not available. -/
theorem sum_erase_idle {scope : AssetRow → Prop} [DecidablePred scope] {f : AssetRow → Int}
    (idle : ∀ x, b.rows.get id = some x → x.state ≠ .available)
    (hf : ∀ x : AssetRow, x.state ≠ .available → f x = 0) :
    ((b.rows.erase id).sum fun x => if scope x then f x else 0) =
      b.rows.sum fun x => if scope x then f x else 0 := by
  rw [Dict.sum_erase]
  cases hget : b.rows.get id with
  | none => simp [hget]
  | some x => simp [Dict.term_of_get hget, hf x (idle x hget)]

/-- In exact books an admitted row fits. -/
theorem Books.Admits.fits {n : Int} {exclude : Option Text} (hx : b.Exact part)
    (canon : b.Canonical part)
    (admits : b.Admits env a.space a.partitionId a.partitionId n exclude)
    (rest : ∀ f : AssetRow → Int, (others b.rows exclude).sum f = (b.rows.erase id).sum f)
    (idle : ∀ x, b.rows.get id = some x → x.state ≠ .available)
    (hbytes : a.accountedBytes = n) (hcount : a.accountedCount = 1) (hheld : a.heldBytes = n) :
    Fits env b id a := by
  have hpart : ∀ f : AssetRow → Int, b.rows.sum (inPartition part a.space a.partitionId f) =
      b.rows.sum fun x => if x.space = a.space ∧ x.partitionId = a.partitionId then f x else 0 :=
    fun f => Dict.sum_congr fun id' x hx' => by simp [inPartition, canon id' x hx']
  have hsome : ∀ f : AssetRow → Int, inPartition some a.space a.partitionId f =
      fun x => if x.space = a.space ∧ x.partitionId = a.partitionId then f x else 0 :=
    fun f => by
      funext x
      simp [inPartition]
  constructor
  · intro q hq
    have := admits.bytes q hq
    rw [hx.bytes, hpart, rest, hsome, ← sum_erase_idle idle fun x => x.liveBytes_of_ne] at this
    simp only [AssetRow.accountedBytes, sum_split] at hbytes ⊢
    rw [hbytes]
    exact_mod_cast this
  · intro q hq
    have := admits.count q hq
    rw [hx.count, hpart, rest, hsome, ← sum_erase_idle idle fun x => x.liveCount_of_ne] at this
    simp only [AssetRow.accountedCount, sum_split] at hcount ⊢
    rw [hcount]
    exact_mod_cast by omega
  · intro q hq
    have := admits.bucket q hq
    unfold inSpace at this
    rw [hx.bucket, rest] at this
    unfold inSpace at this
    rw [← sum_erase_idle idle fun x => x.liveBytes_of_ne] at this
    simp only [AssetRow.accountedBytes, sum_split] at hbytes ⊢
    rw [hbytes]
    exact_mod_cast this
  · intro limits limit h1 h2
    have := admits.physical limits limit h1 h2
    unfold inSpace at this
    rw [rest] at this
    rw [hheld]
    exact_mod_cast this

/-! ### Steps -/

theorem not_accounted (h : a.state = .expired ∨ a.state = .deleted) :
    ¬a.Accounted ∧ a.accountedBytes = 0 ∧ a.accountedCount = 0 := by
  rcases h with h | h <;>
    simp [AssetRow.Accounted, AssetRow.accountedBytes, AssetRow.accountedCount, AssetRow.liveBytes,
      AssetRow.pendingBytes, AssetRow.liveCount, AssetRow.pendingCount, h]

/-- Leaving the accounted states with the same payload makes a row lighter. -/
theorem Lighter.of_retired (ha : a.Valid part) (same : SameContent a a')
    (after : a'.state = .expired ∨ a'.state = .deleted)
    (payload : a'.payloadDeletedAt = a.payloadDeletedAt ∨ a.payloadDeletedAt = none) :
    Lighter a a' := by
  obtain ⟨hacc, hbytes, hcount⟩ := not_accounted after
  refine ⟨same.space, same.partitionId, fun h => absurd h hacc, ?_, ?_, ?_, ?_⟩
  · rw [hbytes]
    exact ha.accountedBytes_nonneg
  · rw [hcount]
    exact a.accountedCount_nonneg
  · rintro ⟨hp, hc⟩
    rw [same.sizeBytes, same.reservedBytes] at hc
    rcases payload with e | e
    · exact ⟨e ▸ hp, hc⟩
    · exact ⟨e, hc⟩
  · have hsize : a'.physicalBytes = a.physicalBytes := by
      simp [AssetRow.physicalBytes, same.sizeBytes, same.reservedBytes]
    have hnonneg := ha.heldBytes_nonneg
    unfold AssetRow.heldBytes at hnonneg ⊢
    rw [hsize]
    rcases payload with e | e
    · rw [e]
    · simp only [e, if_true] at hnonneg ⊢
      split <;> omega

theorem Quiet.lighter (h : Quiet a a') (ha : a.Valid part) : Lighter a a' := by
  cases h with
  | note same state payload =>
    have hacc : a'.Accounted ↔ a.Accounted := by
      simp [AssetRow.Accounted, state, same.reservedBytes]
    have hheld : a'.Held ↔ a.Held := by
      simp [AssetRow.Held, payload, same.sizeBytes, same.reservedBytes]
    refine ⟨same.space, same.partitionId, hacc.mp, le_of_eq ?_, le_of_eq ?_, hheld.mp, le_of_eq ?_⟩
    · simp [AssetRow.accountedBytes, AssetRow.liveBytes, AssetRow.pendingBytes, state,
        same.sizeBytes, same.reservedBytes]
    · simp [AssetRow.accountedCount, AssetRow.liveCount, AssetRow.pendingCount, state,
        same.reservedBytes]
    · simp [AssetRow.heldBytes, AssetRow.physicalBytes, payload, same.sizeBytes,
        same.reservedBytes]
  | retire same _ after payload =>
    exact .of_retired ha same (after.elim .inr fun e => .inl e.2) (.inl payload)
  | purge same _ after payload => exact .of_retired ha same (.inr after) (.inr payload)

theorem others_erase (fresh : b.rows.get id = none) (f : AssetRow → Int) :
    (others b.rows none).sum f = (b.rows.erase id).sum f :=
  (Dict.sum_of_not_get fresh).symm

/-- The share of an available row, which has nothing pending. -/
theorem available_charges (state : a.state = .available) (hp : a.payloadDeletedAt = none) {n : Int}
    (size : a.sizeBytes = some n) :
    a.accountedBytes = n ∧ a.accountedCount = 1 ∧ a.heldBytes = n := by
  simp [AssetRow.accountedBytes, AssetRow.accountedCount, AssetRow.heldBytes, AssetRow.liveBytes,
    AssetRow.pendingBytes, AssetRow.liveCount, AssetRow.pendingCount, AssetRow.physicalBytes, state,
    hp, size]

/-- The share of a pending row. -/
theorem pending_charges (state : a.state = .pending) (hp : a.payloadDeletedAt = none)
    (size : a.sizeBytes = none) {n : Int} (reserved : a.reservedBytes = some n) :
    a.accountedBytes = n ∧ a.accountedCount = 1 ∧ a.heldBytes = n := by
  simp [AssetRow.accountedBytes, AssetRow.accountedCount, AssetRow.heldBytes, AssetRow.liveBytes,
    AssetRow.pendingBytes, AssetRow.liveCount, AssetRow.pendingCount, AssetRow.physicalBytes, state,
    hp, size, reserved]

theorem AssetRow.Valid.unpurged (h : a.Valid part) (state : a.state ≠ .deleted) :
    a.payloadDeletedAt = none := by
  by_contra hp
  exact state (h.purged_deleted hp)

theorem Books.Within.step (h : b.Within env) (hv : b.Valid part) (hx : b.Exact part)
    (canon : b.Canonical part) (hnew : ∀ a, new a → part a.partitionId = some a.partitionId)
    (hstep : Books.Step part env new b b') : b'.Within env := by
  cases hstep with
  | @reserve id a fresh filed valid state unsized spec admitted =>
    have hp := valid.unpurged (by simp [state])
    cases hr : a.reservedBytes with
    | none =>
      refine h.put_idle hv ?_ ?_ ?_ ?_ ?_ <;>
        simp [AssetRow.accountedBytes, AssetRow.accountedCount, AssetRow.heldBytes,
          AssetRow.liveBytes, AssetRow.pendingBytes, AssetRow.liveCount, AssetRow.pendingCount,
          AssetRow.physicalBytes, AssetRow.Accounted, AssetRow.Held, state, hp, unsized, hr]
    | some n =>
      obtain ⟨p, hpart, hadm⟩ := admitted n hr
      obtain rfl : a.partitionId = p := by simpa [hnew a spec] using hpart
      obtain ⟨h1, h2, h3⟩ := pending_charges state hp unsized hr
      exact h.put_fits hv (hadm.fits hx canon (others_erase fresh) (by simp [fresh]) h1 h2 h3)
  | quiet get move => exact h.put_lighter get (move.lighter (hv.row_valid _ _ get))
  | @leave id p a a' get move partition =>
    have light : Lighter a a' :=
      .of_retired (hv.row_valid _ _ get) move.same move.after (.inl move.payload)
    exact (h.put_lighter get light).of_limits
      (SameLimits.release (.of_tables rfl rfl) _) rfl
  | @restore id p a a' get move partition admitted =>
    have ha := hv.row_valid _ _ get
    obtain rfl : a.partitionId = p := by simpa [canon _ _ get] using partition
    obtain ⟨n, hn⟩ := Option.ne_none_iff_exists'.mp move.committed.1
    have hp : a'.payloadDeletedAt = none := move.payload.trans (ha.unpurged (by simp [move.before]))
    obtain ⟨h1, h2, h3⟩ := available_charges move.after hp (move.same.sizeBytes.trans hn)
    rw [hn, Option.getD_some, ← move.same.space, ← move.same.partitionId] at admitted
    have fits : Fits env b id a' := admitted.fits hx canon (fun _ => rfl)
      (fun x hx' => by
        obtain rfl : a = x := by simpa [get] using hx'
        simp [move.before])
      h1 h2 h3
    exact (h.put_fits hv fits).of_limits
      (SameLimits.shift (.of_tables rfl rfl) _ _) rfl

theorem Books.Within.commit {size : Int} {checksum : Text} (h : b.Within env) (hv : b.Valid part)
    (hx : b.Exact part) (canon : b.Canonical part)
    (hstep : Books.Commit part env id size checksum b b') : b'.Within env := by
  obtain @⟨p, a, a', get, move, partition, admitted⟩ := hstep
  have ha := hv.row_valid _ _ get
  obtain rfl : a.partitionId = p := by simpa [canon _ _ get] using partition
  have hp : a'.payloadDeletedAt = none := move.payload.trans (ha.unpurged (by simp [move.before]))
  obtain ⟨h1, h2, h3⟩ := available_charges move.after hp move.sizeBytes
  rw [← move.space, ← move.partitionId] at admitted
  have fits : Fits env b id a' := admitted.fits hx canon (fun _ => rfl)
    (fun x hx' => by
      obtain rfl : a = x := by simpa [get] using hx'
      simp [move.before])
    h1 h2 h3
  exact (h.put_fits hv fits).of_limits
    (SameLimits.shift (.of_tables rfl rfl) _ _) rfl

theorem Books.Canonical.put (h : b.Canonical part)
    (ha : part a.partitionId = some a.partitionId) : (b.put id a).Canonical part := by
  intro id' x hx
  rw [Books.rows_put, Dict.get_set] at hx
  split at hx
  · obtain rfl : a = x := by simpa using hx
    exact ha
  · exact h id' x hx

theorem Books.Canonical.step (h : b.Canonical part)
    (hnew : ∀ a, new a → part a.partitionId = some a.partitionId)
    (hstep : Books.Step part env new b b') : b'.Canonical part := by
  cases hstep with
  | reserve _ _ _ _ _ spec _ => exact h.put (hnew _ spec)
  | quiet get move => exact h.put (move.same.partitionId ▸ h _ _ get)
  | leave get move _ =>
    exact Books.Canonical.put (b := b) h (move.same.partitionId ▸ h _ _ get)
  | restore get move _ _ =>
    exact Books.Canonical.put (b := b) h (move.same.partitionId ▸ h _ _ get)

theorem Books.Canonical.commit {size : Int} {checksum : Text} (h : b.Canonical part)
    (hstep : Books.Commit part env id size checksum b b') : b'.Canonical part := by
  obtain ⟨get, move, _, _⟩ := hstep
  exact Books.Canonical.put (b := b) h (move.partitionId ▸ h _ _ get)

end Limits

end AssetStore
