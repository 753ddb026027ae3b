import AssetStore.Postgres.Refinement
import AssetStore.Registry.Accounting
import AssetStore.Registry.Replay
import AssetStore.Registry.States

/-! What holds of the tables after every run. The registry that they mirror was reached by the same
calls, so what is known of it is known of the rows. -/

namespace AssetStore.Postgres

open Lib

variable {env : Env} {order : RowOrder} {grace : Int} {start now : Time}
  {calls more : List (Op × Time)} {r : Registry}
  {db : Database}

/-- The tables after a run from the empty ones. -/
abbrev tablesAfter (env : Env) (order : RowOrder) (grace : Int) (start : Time)
    (calls : List (Op × Time)) : Database :=
  (calls.foldl (serve env order grace) ⟨start, {}, []⟩).state

/-- Over every run the tables hold only what their columns hold. -/
theorem tables_fit (env : Env) (order : RowOrder) (grace : Int) (start : Time)
    (calls : List (Op × Time)) :
    (tablesAfter env order grace start calls).Fits := by
  have empty : Database.Fits {} := by decide
  induction calls using List.reverseRecOn with
  | nil => exact empty
  | append_singleton calls call ih =>
    rw [tablesAfter, List.foldl_append]
    exact serve_fits ih

/-- The calls can be compared, from the first on. -/
abbrev AllowedFrom (env : Env) (order : RowOrder) (grace : Int) (start : Time)
    (calls : List (Op × Time)) : Prop :=
  AllowedAlong (serve env order grace) (Allowed env order grace) ⟨start, {}, []⟩ calls

/-- The tables after a run mirror the registry that the same calls lead to. -/
theorem registry_of_run (allowed : AllowedFrom env order grace start calls) :
    ∃ r now, Runs env (.initial grace) (timed calls) r ∧
      Mirrors now grace r (tablesAfter env order grace start calls) :=
  ⟨_, _, (Refines.start start grace).runs allowed,
    ((Refines.start start grace).run allowed).mirrors⟩

/-! ### Usage and limits -/

/-- The rows in the available state that satisfy `keep`. -/
def Database.available (db : Database) (keep : AssetRow → Prop) [DecidablePred keep] :
    List AssetRow :=
  db.assets.values.filter fun row => row.state = .available ∧ keep row

/-- The pending rows of known size that satisfy `keep`. -/
def Database.reserved (db : Database) (keep : AssetRow → Prop) [DecidablePred keep] :
    List AssetRow :=
  db.assets.values.filter fun row => (row.state = .pending ∧ row.reservedBytes ≠ none) ∧ keep row

def sumSizes (rows : List AssetRow) : Int := (rows.map fun row => row.sizeBytes.getD 0).sum

section

variable (keep : AssetRow → Prop) [DecidablePred keep]

theorem Mirrors.available (h : Mirrors now grace r db) :
    (r.available fun a => keep a.toAssetRow) = (db.available keep).map db.assetFromRow := by
  simp only [Registry.available, Database.available, h.assets, Dict.values_map, List.filter_map]
  rfl

theorem Mirrors.reserved (h : Mirrors now grace r db) :
    (r.reserved fun a => keep a.toAssetRow) = (db.reserved keep).map db.assetFromRow := by
  simp only [Registry.reserved, Database.reserved, h.assets, Dict.values_map, List.filter_map]
  rfl

theorem sizeSum_rows (rows : List AssetRow) :
    sizeSum (rows.map db.assetFromRow) = sumSizes rows := by
  simp only [sizeSum, sumSizes, List.map_map]
  rfl

theorem sumReserved_rows (rows : List AssetRow) :
    AssetStore.sumReserved (rows.map db.assetFromRow) = sumReserved rows := by
  simp only [AssetStore.sumReserved, sumReserved, List.map_map]
  rfl

/-- What is below a limit in memory is below it in the tables. -/
theorem Mirrors.bytes_below {bound : Rat} (h : Mirrors now grace r db)
    (below : Below keep AssetRow.Accounted AssetRow.accountedBytes bound r.books.rows) :
    (db.available keep = [] ∧ db.reserved keep = []) ∨
      ((sumSizes (db.available keep) + sumReserved (db.reserved keep) : Int) : Rat) < bound := by
  have hlists := AssetStore.bytes_below keep below
  rwa [h.available keep, h.reserved keep, sizeSum_rows, sumReserved_rows, List.map_eq_nil_iff,
    List.map_eq_nil_iff] at hlists

theorem Mirrors.count_below {q : Int} (h : Mirrors now grace r db)
    (below : Below keep AssetRow.Accounted AssetRow.accountedCount (q + 1) r.books.rows) :
    (db.available keep = [] ∧ db.reserved keep = []) ∨
      ((db.available keep).length : Int) + (db.reserved keep).length ≤ q := by
  have hlists := AssetStore.count_below keep below
  rwa [h.available keep, h.reserved keep, List.length_map, List.length_map, List.map_eq_nil_iff,
    List.map_eq_nil_iff] at hlists

end

/-- Stored partition ids are their own normal form. -/
theorem Database.WellFormed.available_partition (h : db.WellFormed) (space pid : Text) :
    (db.available fun row => row.space = space ∧ normPart row.partitionId = some pid) =
      db.available fun row => row.space = space ∧ row.partitionId = pid := by
  refine List.filter_congr fun row hrow => ?_
  obtain ⟨id, get⟩ := Dict.mem_values.mp hrow
  have hpart : normPart row.partitionId = some row.partitionId :=
    normPart_of_fixed (h.row_formed _ _ get).partition
  simp only [hpart, Option.some.injEq]

/-- After every run the counters of a partition and of a space are what their available rows add up
to. -/
theorem postgres_usage_exact (allowed : AllowedFrom env order grace start calls) :
    let db := tablesAfter env order grace start calls
    (∀ space pid,
      (db.partitionAt space pid).usedBytes =
        sumSizes (db.available fun row => row.space = space ∧ row.partitionId = pid) ∧
      (db.partitionAt space pid).usedAssetCount =
        (db.available fun row => row.space = space ∧ row.partitionId = pid).length) ∧
    ∀ space, (db.bucketAt space).usedBytes =
      sumSizes (db.available fun row => row.space = space) := by
  intro db
  obtain ⟨r, now, hruns, h⟩ := registry_of_run allowed
  obtain ⟨-, hexact⟩ := hruns.sound
  have hpartition := fun space pid => h.available fun row => row.space = space ∧
    normPart row.partitionId = some pid
  refine ⟨fun space pid => ⟨?_, ?_⟩, fun space => ?_⟩
  · rw [← h.formed.available_partition, ← sizeSum_rows, ← hpartition, ← h.partitions]
    exact (hexact.bytes space pid).trans
      (sizeSum_available r fun a => a.space = space ∧ normPart a.partitionId = some pid).symm
  · rw [← h.formed.available_partition, ← h.partitions, ← List.length_map db.assetFromRow,
      ← hpartition]
    exact (hexact.count space pid).trans
      (length_available r fun a => a.space = space ∧ normPart a.partitionId = some pid).symm
  · rw [← sizeSum_rows, ← h.available fun row => row.space = space, ← h.buckets]
    exact (hexact.bucket space).trans (sizeSum_available r fun a => a.space = space).symm

theorem usage_exact_upload :
    let db := tablesAfter plainEnv insertionOrder 5 0 uploadCalls
    (db.partitionAt "cache".toList "m".toList).usedBytes =
        sumSizes (db.available fun row => row.space = "cache".toList ∧
          row.partitionId = "m".toList) ∧
      (db.partitionAt "cache".toList "m".toList).usedBytes = 3 :=
  ⟨((postgres_usage_exact upload_allowed).1 _ _).1, by decide +kernel⟩

/-- Limits that are set before the first reservation hold after every run: the bytes and the number
of the available and the reserved rows of a partition, the bytes of those of a space, and the bytes
that are not purged. -/
theorem postgres_limits_hold (allowed : AllowedFrom env order grace start calls)
    (fixed : calls.Pairwise fun c c' => c.1.IsReserve → ¬c'.1.SetsLimits)
    (canon : ∀ c ∈ calls, c.1.CanonicalPartition) :
    let db := tablesAfter env order grace start calls
    let inPartition := fun space pid (row : AssetRow) => row.space = space ∧ row.partitionId = pid
    (∀ space pid, ∀ q ∈ (db.partitionAt space pid).quotaBytes,
      (db.available (inPartition space pid) = [] ∧ db.reserved (inPartition space pid) = []) ∨
      ((sumSizes (db.available (inPartition space pid)) +
        sumReserved (db.reserved (inPartition space pid)) : Int) : Rat) <
        q * (21 / 20)) ∧
    (∀ space pid, ∀ q ∈ (db.partitionAt space pid).quotaAssetCount,
      (db.available (inPartition space pid) = [] ∧ db.reserved (inPartition space pid) = []) ∨
      ((db.available (inPartition space pid)).length : Int) +
        (db.reserved (inPartition space pid)).length ≤ q) ∧
    (∀ space, ∀ q ∈ (db.bucketAt space).quotaBytes,
      (db.available (fun row => row.space = space) = [] ∧
        db.reserved (fun row => row.space = space) = []) ∨
      ((sumSizes (db.available fun row => row.space = space) +
        sumReserved (db.reserved fun row => row.space = space) : Int) : Rat) < q *
          (db.bucketAt space).hardCeiling) ∧
    ∀ limits space limit, capacityLimits env = .ok limits → limits.lookup space = some limit →
      (∀ row ∈ db.assets.values, row.space = space → row.payloadDeletedAt = none →
        row.sizeBytes = none ∧ row.reservedBytes = none) ∨
      (db.physicalBytes space none : Rat) < limit * env.capacityHardRatio := by
  intro db inPartition
  obtain ⟨r, now, hruns, h⟩ := registry_of_run allowed
  have hfixed : (timed calls).Pairwise fun c c' => c.1.IsReserve → ¬c'.1.SetsLimits :=
    List.pairwise_map.mpr fixed
  have hcanon : ∀ c ∈ timed calls, c.1.CanonicalPartition := fun c hc => by
    obtain ⟨call, hcall, rfl⟩ := List.mem_map.mp hc
    exact canon call hcall
  obtain ⟨hwithin, -, -⟩ := hruns.within hfixed hcanon
  refine ⟨fun space pid q hq => h.bytes_below _ ?_, fun space pid q hq => h.count_below _ ?_,
    fun space q hq => h.bytes_below _ ?_, fun limits space limit hl hlimit => ?_⟩
  · rw [← h.partitions] at hq
    exact hwithin.bytes space pid q hq
  · rw [← h.partitions] at hq
    exact hwithin.count space pid q hq
  · rw [← h.buckets] at hq ⊢
    exact hwithin.bucket space q hq
  · refine (hwithin.physical limits space limit hl hlimit).imp
      (fun hnone row hrow hspace hp => ?_) fun hlt => ?_
    · obtain ⟨id, get⟩ := Dict.mem_values.mp hrow
      have := hnone id _ (Registry.books_get (h.get_some get)) hspace
      simpa [AssetRow.Held, Database.assetFromRow, hp] using this
    · rw [← h.physicalBytes, physicalBytes_space hruns.sound.1]
      exact hlt

theorem limits_hold_upload :
    let db := tablesAfter plainEnv insertionOrder 5 0 uploadCalls
    (db.available fun row => row.space = "cache".toList ∧ row.partitionId = "m".toList) ≠ [] ∧
      ((db.available fun row => row.space = "cache".toList ∧ row.partitionId = "m".toList).length :
        Int) +
        (db.reserved fun row => row.space = "cache".toList ∧ row.partitionId = "m".toList).length ≤
          1 := by
  intro db
  have hquota : (db.partitionAt "cache".toList "m".toList).quotaAssetCount = some 1 := by
    decide +kernel
  have hsome :
      ((db.available fun row => row.space = "cache".toList ∧
        row.partitionId = "m".toList).isEmpty) = false := by
    decide +kernel
  have hne :
      (db.available fun row => row.space = "cache".toList ∧ row.partitionId = "m".toList) ≠ [] :=
    List.isEmpty_eq_false_iff.mp hsome
  have hfixed : uploadCalls.Pairwise fun c c' => c.1.IsReserve → ¬c'.1.SetsLimits := by
    simp [uploadCalls, limitCall, reserveCall, commitCall, Op.IsReserve, Op.SetsLimits]
  have hcanon : ∀ c ∈ uploadCalls, c.1.CanonicalPartition := by
    simp only [uploadCalls, List.mem_cons, List.not_mem_nil, or_false, forall_eq_or_imp, forall_eq]
    exact ⟨trivial, rfl, trivial⟩
  have hcount := (postgres_limits_hold upload_allowed hfixed hcanon).2.1 "cache".toList "m".toList 1
    (by rw [hquota]; rfl)
  exact ⟨hne, hcount.resolve_left fun h => hne h.1⟩

/-! ### The audit table -/

/-- Replaying the audit rows gives the bindings and the states that the tables hold, and every
lifecycle event names the state just before it. -/
theorem postgres_replay (allowed : AllowedFrom env order grace start calls)
    (names : ∀ c ∈ calls, c.1.NamesAlias) :
    let db := tablesAfter env order grace start calls
    (∀ space name, '/' ∉ space → (replay db.auditEvents).bindings.get (space ++ '/' :: name) =
      (db.aliases.get (space, name)).map fun b => (b.assetId, b.mutable)) ∧
    (∀ id, (replay db.auditEvents).states.get id = (db.assets.get id).map fun row => row.state) ∧
    ∀ before e after, db.auditEvents = before ++ e :: after → e.action.Lifecycle →
      ∃ st, (replay before).states.get e.target = some st ∧
        e.before.lookup "state".toList = some st.value := by
  intro db
  obtain ⟨r, now, hruns, h⟩ := registry_of_run allowed
  have hnames : ∀ c ∈ timed calls, c.1.NamesAlias := fun c hc => by
    obtain ⟨call, hcall, rfl⟩ := List.mem_map.mp hc
    exact names call hcall
  have hlogged := hruns.logged hnames fun c hc => by
    obtain ⟨call, hcall, rfl⟩ := List.mem_map.mp hc
    exact allowed.forall_mem (P := fun call => ¬call.1.Overflows (fun _ => call.2) grace)
      (fun _ _ ok => ok.dated) call hcall
  rw [← h.events]
  refine ⟨fun space name hslash => ?_, fun id => ?_, hlogged.continuous⟩
  · rw [hlogged.mirrors.bindings, h.aliases space name hslash]
  · rw [hlogged.mirrors.states, h.get, Option.map_map]
    rfl

theorem replay_sample :
    let db := tablesAfter plainEnv insertionOrder 5 0 sampleCalls
    (replay db.auditEvents).states.get "a1".toList = some .expired ∧
      (replay db.auditEvents).bindings.get "cache/m/x".toList = none := by
  intro db
  obtain ⟨hbindings, hstates, -⟩ := postgres_replay sample_allowed
    (by simp [sampleCalls, uploadCalls, limitCall, reserveCall, commitCall, Op.NamesAlias])
  have hkey := hbindings "cache".toList "m/x".toList (by decide)
  refine ⟨(hstates _).trans (by decide +kernel), hkey.trans (by decide +kernel)⟩

/-! ### Rows over time -/

/-- A row stays, and so does what identifies it and what is written once; its state moves
forward. -/
theorem postgres_rows_evolve (allowed : AllowedFrom env order grace start (calls ++ more)) :
    let db := tablesAfter env order grace start calls
    let later := tablesAfter env order grace start (calls ++ more)
    ∀ id row, db.assets.get id = some row → ∃ row', later.assets.get id = some row' ∧
      Evolves (db.assetFromRow row) (later.assetFromRow row') := by
  intro db later id row get
  obtain ⟨hbefore, hmore⟩ := allowedAlong_append.mp allowed
  have hfirst := (Refines.start start grace).run hbefore
  have hruns := (Refines.start start grace).runs hbefore
  obtain ⟨a', get', hevolves⟩ := hruns.evolves (hfirst.runs hmore) (hfirst.mirrors.get_some get)
  have hlater := (hfirst.run hmore).mirrors
  rw [hlater.get] at get'
  obtain ⟨row', hrow', rfl⟩ := Option.map_eq_some_iff.mp get'
  have hstate :
      later = (more.foldl (serve env order grace)
        (calls.foldl (serve env order grace) ⟨start, {}, []⟩)).state :=
    congrArg Served.state List.foldl_append
  exact ⟨row', by rwa [hstate], by rwa [hstate]⟩

theorem rows_evolve_sample : ∃ row,
    (tablesAfter plainEnv insertionOrder 5 0 sampleCalls).assets.get "a1".toList = some row ∧
      row.storageKey = "m/assets/a1".toList := by
  have hstored : ((tablesAfter plainEnv insertionOrder 5 0 uploadCalls).assets.get "a1".toList).any
      (fun row => row.storageKey == "m/assets/a1".toList) = true := by decide +kernel
  obtain ⟨row, get, hkey⟩ := (Option.any_eq_true _ _).mp hstored
  obtain ⟨row', get', hevolves⟩ := postgres_rows_evolve sample_allowed _ row get
  exact ⟨row', get', hevolves.storageKey.trans (beq_iff_eq.mp hkey)⟩

end AssetStore.Postgres
