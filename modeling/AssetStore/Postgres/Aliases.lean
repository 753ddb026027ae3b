import AssetStore.Paths.Renormalization
import AssetStore.Postgres.Calls
import AssetStore.Registry.Requests

/-! The alias operations on both registries. In memory an alias is kept twice, as a binding and in
the alias set of its asset; the database keeps one row, and a change of the row is a change of
both. -/

namespace AssetStore.Postgres

open Lib

variable {α β : Type} {now : Time} {grace : Int} {origin db : Database} {r : Registry}
  {R : α → β → Prop} {env : Env}
  {id caller space name : Text}

/-! ### Bindings -/

/-- A binding is looked up under the same name on both sides. -/
theorem Agrees.binding {f : AliasBinding → RegM α} {g : Text → Text → SqlM β} {t : UnitOfWork}
    (h0 : Mirrors now grace r origin) (settled : Settled name)
    (rest : ∀ s n, s ∈ storageBuckets → Fixed n →
      Agrees now grace origin R
        ((attempt (someOr (r.aliases.get (s ++ '/' :: n))
          { cls := .aliasNotFound, message := "%s", args := [s ++ '/' :: n] }) >>= f)
            (inMemory now r))
        (g s n t)) :
    Agrees now grace origin R ((getBinding space name >>= f) (inMemory now r))
      ((pureCode (normalizeSpace space) >>= fun s => pureCode (normalizeRelativeAlias name) >>=
        fun n => g s n) t) := by
  simp only [getBinding, bind_assoc]
  refine .sameCode h0 fun s hs => .sameCode h0 fun n hn => ?_
  have hmem : s ∈ storageBuckets := (normalizeBucket_eq_ok.mp hs).2
  have hkey : qualifiedAlias s n = .ok (s ++ '/' :: n) :=
    qualifiedAlias_eq_ok.mpr ⟨s, n, normalizeBucket_of_mem hmem, settled n hn, rfl⟩
  rw [hkey]
  exact .left rfl (.left rfl (rest s n hmem (settled n hn)))

/-- What is stored for a binding. -/
theorem Mirrors.bound (h : Mirrors now grace r db) {n : Text} (hmem : space ∈ storageBuckets) :
    r.aliases.get (space ++ '/' :: n) = (db.aliases.get (space, n)).map fun b => b := by
  rw [h.aliases space n (bucket_no_slash hmem)]
  simp

theorem Database.WellFormed.qualified {b : AliasBinding} {n : Text} (h : db.WellFormed)
    (get : db.aliases.get (space, n) = some b) : b.qualifiedAlias = .ok (space ++ '/' :: n) := by
  obtain ⟨rfl, rfl, hmem, hfixed⟩ := h.alias_filed _ _ _ get
  exact qualifiedAlias_eq_ok.mpr ⟨_, _, normalizeBucket_of_mem hmem, hfixed, rfl⟩

/-- The message names the key of the row. -/
theorem raiseNaming_eq {b : AliasBinding} {n : Text} {c : Prop} [Decidable c] {cls : ErrorClass}
    {message : String}
    (h : db.WellFormed) (get : db.aliases.get (space, n) = some b) :
    raiseNaming c b cls message = raiseIf c { cls, message, args := [space ++ '/' :: n] } := by
  rw [raiseNaming, raiseIf, h.qualified get]
  rfl

theorem resolveAlias_agrees (h : Mirrors now grace r db) (settled : Settled name) :
    Agrees now grace db Eq (AssetStore.resolveAlias space name (inMemory now r))
      (resolveAlias space name (inUnit now grace db)) := by
  refine .transactional (.binding h settled fun s n hmem hfixed =>
    .right rfl (.required (h.bound hmem) rfl h fun b get => ?_))
  rw [raiseNaming_eq h.formed get]
  rcases hid : b.assetId with _ | id
  · exact .refused (if_pos rfl) rfl rfl h
  · refine .passed (if_neg (by simp)) rfl (.load h h fun row _ => .left rfl (.right rfl ?_))
    exact .sameCode h fun _ _ => .check Iff.rfl rfl h fun _ => .returned rfl h

/-! ### Orphans -/

/-- Whether an alias row still refers to an asset. -/
theorem aliasNames_eq_empty {row : AssetRow} (db : Database) :
    db.aliasNames row = ∅ ↔
      (db.aliases.values.any fun b => b.assetId = some row.assetId) = false := by
  simp [Database.aliasNames, List.filter_eq_nil_iff]

/-- An asset without aliases expires on both sides. -/
theorem Agrees.orphaned {row : AssetRow} {f : Unit → RegM α} {g : Unit → SqlM β}
    (h : Mirrors now grace r db)
    (get : db.assets.get id = some row)
    (rest : ∀ r' db', Mirrors now grace r' db' → db'.aliases = db.aliases →
      Agrees now grace origin R (f () (inMemory now r')) (g () (inUnit now grace db'))) :
    Agrees now grace origin R ((AssetStore.markForGcIfOrphaned id caller >>= f) (inMemory now r))
      ((markForGcIfOrphaned id caller >>= g) (inUnit now grace db)) := by
  obtain rfl := h.formed.row_filed _ _ get
  have hformed := h.formed.row_formed _ _ get
  simp only [AssetStore.markForGcIfOrphaned, markForGcIfOrphaned, bind_assoc]
  refine .left (getAsset_eq_ok.mpr ⟨h.get_some get, rfl⟩) ?_
  have hremaining : ∀ b, (db.aliases.values.any fun b => b.assetId = some row.assetId) = b →
      select (fun db => db.aliases.values.any fun b => b.assetId = some row.assetId)
        (inUnit now grace db) =
        .ok b (inUnit now grace db) := fun b hb =>
          congrArg (fun o => EStateM.Result.ok o (inUnit now grace db)) hb
  have hselect : select (fun db => db.assets.get row.assetId) (inUnit now grace db) =
      .ok (some row) (inUnit now grace db) :=
    congrArg (fun o => EStateM.Result.ok o (inUnit now grace db)) get
  by_cases hnames : db.aliasNames row = ∅
  · refine .right (hremaining false ((aliasNames_eq_empty db).mp hnames)) ?_
    rw [if_neg Bool.false_ne_true, bind_assoc]
    refine .right hselect ?_
    by_cases hstate : row.state = .expired ∨ row.state = .deleted
    · have hcond : (db.assetFromRow row).aliases ≠ ∅ ∨ (db.assetFromRow row).state = .expired ∨
          (db.assetFromRow row).state = .deleted := .inr hstate
      rw [if_pos hcond]
      dsimp only
      rw [if_pos hstate]
      exact .left rfl (.right rfl (rest r db h rfl))
    · have hcond : ¬((db.assetFromRow row).aliases ≠ ∅ ∨ (db.assetFromRow row).state = .expired ∨
          (db.assetFromRow row).state = .deleted) := not_or.mpr ⟨not_not.mpr hnames, hstate⟩
      rw [if_neg hcond]
      dsimp only
      rw [if_neg hstate]
      simp only [bind_assoc]
      refine .left rfl (.left rfl (.left
        rfl (.right rfl (.right rfl (.right (updateAsset_eq get _) ?_)))))
      have same :
          SameAsset row { row with state := .expired, updatedAt := now, expiredAt := some now } :=
        ⟨rfl, rfl, rfl, hformed.sized⟩
      have hset := h.setRow get same
      refine .release (a := db.assetFromRow row) hset hformed fun r' db' h' _ _ haliases => ?_
      exact .left rfl (.right rfl (rest _ _ (h'.log _) haliases))
  · refine .right (hremaining true (by simpa using (aliasNames_eq_empty db).not.mp hnames)) ?_
    have hcond : (db.assetFromRow row).aliases ≠ ∅ ∨ (db.assetFromRow row).state = .expired ∨
        (db.assetFromRow row).state = .deleted := .inl hnames
    rw [if_pos hcond, if_pos rfl]
    exact .left rfl (.right rfl (rest r db h rfl))

theorem markForGcIfOrphaned_agrees {row : AssetRow} (h : Mirrors now grace r db)
    (get : db.assets.get id = some row) :
    Agrees now grace origin Eq (AssetStore.markForGcIfOrphaned id caller (inMemory now r))
      (markForGcIfOrphaned id caller (inUnit now grace db)) := by
  rw [← bind_pure (AssetStore.markForGcIfOrphaned id caller),
    ← bind_pure (markForGcIfOrphaned id caller)]
  exact .orphaned h get fun _ _ h' _ => .returned rfl h'

/-! ### Changes of a binding -/

/-- The row of a binding. -/
theorem Agrees.loadBinding {f : AliasBinding → RegM α} {g : AliasBinding → SqlM β}
    {n : Text} {e : Err}
    (hcls : e.cls = .aliasNotFound) (h : Mirrors now grace r db) (h0 : Mirrors now grace r origin)
    (hmem : space ∈ storageBuckets)
    (rest : ∀ b, db.aliases.get (space, n) = some b →
      Agrees now grace origin R (f b (inMemory now r)) (g b (inUnit now grace db))) :
    Agrees now grace origin R ((attempt (someOr (r.aliases.get (space ++ '/' :: n)) e) >>= f)
      (inMemory now r))
      ((loadBinding space n >>= g) (inUnit now grace db)) :=
  Agrees.required (φ := fun b => b) (h.bound hmem) hcls h0 rest

theorem loadBinding_stored {b : AliasBinding} {n : Text}
    (get : db.aliases.get (space, n) = some b) :
    loadBinding space n (inUnit now grace db) = .ok b (inUnit now grace db) := by
  change pureCode (someOr (db.aliases.get (space, n)) _) _ = _
  rw [get]
  rfl

theorem removeAliasFromAsset_eq {a : Asset} {key : Text} (get : r.assets.get id = some a) :
    removeAliasFromAsset id key (inMemory now r) =
      .ok () (inMemory now { r with assets := r.assets.set id { a with
        aliases := a.aliases.erase key, updatedAt := now } }) :=
  bind_of_ok (getAsset_eq_ok.mpr ⟨get, rfl⟩)

theorem addAliasToAsset_eq {a : Asset} {key : Text} (get : r.assets.get id = some a) :
    addAliasToAsset id key (inMemory now r) =
      .ok () (inMemory now { r with assets := r.assets.set id { a with
        aliases := insert key a.aliases, updatedAt := now } }) :=
  bind_of_ok (getAsset_eq_ok.mpr ⟨get, rfl⟩)

/-- The row is updated, although other tables have changed. -/
theorem Mirrors.updateRow {d : Database} {row : AssetRow} (_ : Mirrors now grace r db)
    (get : db.assets.get id = some row) (u : AssetRow → AssetRow) (same : d.assets = db.assets) :
    updateAsset id u (inUnit now grace d) =
      .ok () (inUnit now grace { d with assets := db.assets.set id (u row) }) :=
  same ▸ updateAsset_eq (same.symm ▸ get) u

theorem buryName_eq {key : Text} (pos : 0 < grace) (dated : ¬maxTime < now + grace)
    (h : r.aliasGrace = grace) :
    buryName key (inMemory now r) =
      .ok () (inMemory now { r with tombstones := r.tombstones.set key (now + grace) }) := by
  subst h
  change (if 0 < r.aliasGrace then _ else _ : RegM Unit) (inMemory now r) = _
  rw [if_pos pos]
  refine (bind_of_ok rfl).trans ?_
  exact bind_of_ok (attempt_of_ok (a := ()) (raiseIf_eq_ok.mpr dated))

theorem buryName_eq_of_not {key : Text} (off : ¬0 < grace) (h : r.aliasGrace = grace) :
    buryName key (inMemory now r) = .ok () (inMemory now r) := by
  subst h
  change (if 0 < r.aliasGrace then _ else _ : RegM Unit) (inMemory now r) = _
  rw [if_neg off]
  rfl

theorem detachAlias_agrees (h : Mirrors now grace r db) (settled : Settled name)
    (dated : ¬(0 < grace ∧ maxTime < now + grace)) :
    Agrees now grace db Eq (AssetStore.detachAlias space name caller (inMemory now r))
      (detachAlias space name caller (inUnit now grace db)) := by
  refine .transactional (.binding h settled fun s n hmem hfixed =>
    .loadBinding rfl h h hmem fun b hb => ?_)
  refine .sameCode h fun _ _ => .sameCode h fun key hkey => ?_
  obtain rfl : s ++ '/' :: n = key := Except.ok.inj ((h.formed.qualified hb).symm.trans hkey)
  refine .sameCode h fun id hid => ?_
  have hbound : db.boundTo s n = some id := by
    rw [Database.boundTo, hb, Option.bind_some, someOr_eq_ok.mp hid]
  obtain ⟨row, get, rfl⟩ := h.formed.alias_refers _ _ _ hbound
  have hslash : '/' ∉ row.space := bucket_no_slash hmem
  have same : SameAsset row { row with updatedAt := now } :=
    ⟨rfl, rfl, rfl, (h.formed.row_formed _ _ get).sized⟩
  have hunbound := h.unbindAlias get same hbound ((h.formed.setRow get same).eraseAlias row.space n)
    (Database.WellFormed.boundTo_eraseAlias db row.space n) (h.aliases_erase hslash n)
  have hremoved : removeAliasFromAsset id (row.space ++ '/' :: n)
      (inMemory now { r with aliases := r.aliases.erase (row.space ++ '/' :: n) }) = _ :=
    removeAliasFromAsset_eq (h.get_some get)
  refine .left rfl (.left hremoved (.right rfl (.right rfl ?_)))
  have hstored : ∀ {d : Database}, d.assets = db.assets.set id { row with updatedAt := now } →
      d.assets.get id = some { row with updatedAt := now } :=
        fun {d} hd => hd ▸ Dict.get_set_self _ _ _
  by_cases hgrace : 0 < grace
  · have hburied := (hunbound.bury hslash n (now + grace)).log
      { action := .aliasDetach, target := row.space ++ '/' :: n, callerServiceId := caller,
        outcome := "success".toList
        before := mapping [("asset_id".toList, id)], after := mapping [], ts := now }
    have hdate : ¬maxTime < now + grace := fun hover => dated ⟨hgrace, hover⟩
    have hcheck :
        ∀ {e : Err} {t : UnitOfWork}, pureCode (raiseIf (maxTime < now + grace) e) t = .ok () t :=
      fun {e t} => attempt_of_ok (by rw [raiseIf_eq_ok.mpr hdate]; rfl)
    simp only [if_pos hgrace, bind_assoc]
    refine .left (buryName_eq hgrace hdate h.grace) (.left rfl (.right rfl ?_))
    refine .right hcheck (.right rfl (.right rfl ?_))
    exact .right rfl (.right (h.updateRow get _ rfl)
      (markForGcIfOrphaned_agrees hburied (hstored rfl)))
  · have hlogged := hunbound.log
      { action := .aliasDetach, target := row.space ++ '/' :: n, callerServiceId := caller,
        outcome := "success".toList
        before := mapping [("asset_id".toList, id)], after := mapping [], ts := now }
    rw [if_neg hgrace]
    refine .left (buryName_eq_of_not hgrace h.grace) (.left rfl (.right rfl (.right rfl ?_)))
    exact .right rfl (.right (h.updateRow get _ rfl)
      (markForGcIfOrphaned_agrees hlogged (hstored rfl)))

theorem updateAlias_eq {b : AliasBinding} {n : Text} (get : db.aliases.get (space, n) = some b)
    (u : AliasBinding → AliasBinding) :
    updateAlias space n u (inUnit now grace db) =
      .ok () (inUnit now grace { db with aliases := db.aliases.set (space, n) (u b) }) := by
  change EStateM.Result.ok () (inUnit now grace
    { db with aliases := (db.aliases.get (space, n)).elim _ _ }) = _
  rw [get]
  rfl

theorem detachMutableAlias_agrees (h : Mirrors now grace r db) (settled : Settled name) :
    Agrees now grace db Eq (AssetStore.detachMutableAlias space name caller (inMemory now r))
      (detachMutableAlias space name caller (inUnit now grace db)) := by
  refine .transactional (.binding h settled fun s n hmem hfixed =>
    .right rfl (.loadBinding rfl h h hmem fun b hb => ?_))
  refine .sameCode h fun _ _ => .sameCode h fun key hkey => ?_
  obtain rfl : s ++ '/' :: n = key := Except.ok.inj ((h.formed.qualified hb).symm.trans hkey)
  refine .sameCode h fun id hid => ?_
  have hbound : db.boundTo s n = some id := by
    rw [Database.boundTo, hb, Option.bind_some, someOr_eq_ok.mp hid]
  obtain ⟨row, get, rfl⟩ := h.formed.alias_refers _ _ _ hbound
  have hslash : '/' ∉ row.space := bucket_no_slash hmem
  have same : SameAsset row { row with updatedAt := now } :=
    ⟨rfl, rfl, rfl, (h.formed.row_formed _ _ get).sized⟩
  obtain ⟨hspace, hname, -, -⟩ := h.formed.alias_filed _ _ _ hb
  have hformed := (h.formed.setRow get same).setAlias
    (b := { b with assetId := none, previousAssetId := some id, updatedAt := now })
      ⟨hspace, hname⟩ hmem hfixed
    (fun _ hi => by cases hi)
  have hunbound := (h.unbindAlias get same hbound hformed
    (Database.WellFormed.boundTo_setAlias db row.space n · · _) (h.aliases_set hslash n _)).log
      { action := .aliasDetachMutable, target := row.space ++ '/' :: n, callerServiceId := caller
        outcome := "success".toList, before := mapping [("asset_id".toList, id)]
        after := mapping [("asset_id".toList, [])], ts := now }
  refine .left (removeAliasFromAsset_eq (h.get_some get)) (.left rfl (.left rfl (.left rfl ?_)))
  refine .right (updateAlias_eq hb _) (.right rfl (.right (h.updateRow get _ rfl) ?_))
  refine .orphaned hunbound (Dict.get_set_self _ _ _) fun r' db' h' haliases => ?_
  have hstored : db'.aliases.get (row.space, n) =
      some { b with assetId := none, previousAssetId := some id, updatedAt := now } :=
    (congrArg (fun d : Dict (Text × Text) AliasBinding => d.get (row.space, n)) haliases).trans
      (Dict.get_set_self _ _ _)
  rw [loadBinding_stored hstored]
  exact .returned rfl h'

theorem rebindAlias_agrees (h : Mirrors now grace r db) (settled : Settled name) :
    Agrees now grace db Eq (AssetStore.rebindAlias space name id caller (inMemory now r))
      (rebindAlias space name id caller (inUnit now grace db)) := by
  refine .transactional (.binding h settled fun s n hmem hfixed =>
    .right rfl (.loadBinding rfl h h hmem fun b hb => ?_))
  refine .sameCode h fun _ _ => .sameCode h fun _ hfree => .load h h fun row get => ?_
  refine .sameCode h fun _ hspace => .sameCode h fun _ _ => .sameCode h fun _ _ =>
    .sameCode h fun _ _ => ?_
  obtain ⟨hfiled, hname, -, -⟩ := h.formed.alias_filed _ _ _ hb
  have hrow : row.space = s := (not_not.mp (raiseIf_eq_ok.mp hspace)).trans hfiled
  have hkey := h.formed.qualified hb
  rw [raiseNaming_eq h.formed hb, raiseIf_eq_ok, not_not] at hfree
  have hunbound : db.boundTo s n = none := by rw [Database.boundTo, hb, Option.bind_some, hfree]
  have same : SameAsset row { row with updatedAt := now } :=
    ⟨rfl, rfl, rfl, (h.formed.row_formed _ _ get).sized⟩
  have hbind := (h.bindAlias
    (b := { b with assetId := some id, previousAssetId := none, updatedAt := now }) get same
    hrow hunbound ⟨hfiled, hname⟩ hfixed rfl).log
      { action := .aliasRebind, target := s ++ '/' :: n, callerServiceId := caller,
        outcome := "success".toList
        before := mapping [("asset_id".toList, b.previousAssetId.getD [])]
        after := mapping [("asset_id".toList, id)], ts := now }
  refine .left (attempt_of_ok hkey)
    (.left rfl (.left rfl (.left (addAliasToAsset_eq (h.get_some get)) (.left rfl ?_))))
  refine .right (updateAlias_eq hb _) (.right (h.updateRow get _ rfl) ?_)
  rw [hkey]
  refine .right rfl (.right rfl ?_)
  rw [loadBinding_stored (Dict.get_set_self _ _ _)]
  exact .returned rfl hbind

/-! ### New names -/

section Names

variable {n key : Text}

/-- In memory, a name is blocked while it is bound or within its grace period. -/
theorem aliasNameIsBlocked_true (hkey : qualifiedAlias space n = .ok key)
    (taken : (r.aliases.get key).isSome ∨ (ahead now (r.tombstones.get key)).isSome) :
    aliasNameIsBlocked space n (inMemory now r) = .ok true (inMemory now r) := by
  simp only [aliasNameIsBlocked, hkey]
  change (if (r.aliases.get key).isSome then _ else _ : RegM Bool) (inMemory now r) = _
  by_cases hbound : (r.aliases.get key).isSome
  · rw [if_pos hbound]
    rfl
  · rw [if_neg hbound]
    obtain ⟨until', htomb⟩ := Option.isSome_iff_exists.mp (taken.resolve_left hbound)
    obtain ⟨htomb, hahead⟩ := Option.filter_eq_some_iff.mp htomb
    rw [htomb]
    change (if until' ≤ now then _ else _ : RegM Bool) (inMemory now r) = _
    rw [if_neg (not_le.mpr (of_decide_eq_true hahead))]
    rfl

/-- Otherwise it is free, and an elapsed tombstone is gone. -/
theorem aliasNameIsBlocked_false (hkey : qualifiedAlias space n = .ok key)
    (free : r.aliases.get key = none)
    (elapsed : ahead now (r.tombstones.get key) = none) :
    ∃ r', aliasNameIsBlocked space n (inMemory now r) = .ok false (inMemory now r') ∧
      (r' = r ∨ r' = { r with tombstones := r.tombstones.erase key }) := by
  simp only [aliasNameIsBlocked, hkey]
  change ∃ r', (if (r.aliases.get key).isSome then _ else _ : RegM Bool) (inMemory now r) = _ ∧ _
  rw [free, if_neg (by simp)]
  cases htomb : r.tombstones.get key with
  | none => exact ⟨r, rfl, .inl rfl⟩
  | some until' =>
    rw [htomb, ahead, Option.filter_some] at elapsed
    have hle : until' ≤ now := not_lt.mp fun hlt => by simp [hlt] at elapsed
    refine ⟨_, ?_, .inr rfl⟩
    change (if until' ≤ now then _ else _ : RegM Bool) (inMemory now r) = _
    rw [if_pos hle]
    rfl

/-- What follows the check of the binding. -/
theorem requireAliasNameAvailable_unbound (free : db.aliases.get (space, n) = none) :
    requireAliasNameAvailable space n (inUnit now grace db) =
      (match db.tombstones.get (space, n) with
      | none => pure ()
      | some graceUntil =>
        if graceUntil ≤ now then execute fun db =>
          { db with tombstones := db.tombstones.erase (space, n) }
        else raise (.domain
          { cls := .aliasConflict, message := "alias %s/%r already exists or is within grace period"
            args := [space, n] }) : SqlM Unit) (inUnit now grace db) := by
  have hpassed : ∀ e : Err, (pureCode (raiseIf (db.aliases.get (space, n)).isSome e) : SqlM Unit)
      (inUnit now grace db) =
      .ok () (inUnit now grace db) := fun e => by
    rw [free]
    rfl
  refine (bind_of_ok rfl).trans ((bind_of_ok (hpassed _)).trans ((bind_of_ok rfl).trans ?_))
  dsimp only
  cases htomb : db.tombstones.get (space, n) <;> rfl

/-- In the tables, a name is refused while it is bound or within its grace period. -/
theorem requireAliasNameAvailable_taken
    (taken : (db.aliases.get (space, n)).isSome ∨
      (ahead now (db.tombstones.get (space, n))).isSome) :
    ∃ e : Err, e.cls = .aliasConflict ∧
      requireAliasNameAvailable space n (inUnit now grace db) =
        .error (.domain e) (inUnit now grace db) := by
  by_cases hbound : (db.aliases.get (space, n)).isSome
  · refine ⟨{ cls := .aliasConflict, message := "alias %s/%r already exists", args := [space, n] },
      rfl, ?_⟩
    refine (bind_of_ok rfl).trans (bind_of_error ?_)
    simp only [raiseIf, hbound, if_true]
    rfl
  · obtain ⟨until', htomb⟩ := Option.isSome_iff_exists.mp (taken.resolve_left hbound)
    obtain ⟨htomb, hahead⟩ := Option.filter_eq_some_iff.mp htomb
    rw [requireAliasNameAvailable_unbound (Option.not_isSome_iff_eq_none.mp hbound), htomb]
    dsimp only
    rw [if_neg (not_le.mpr (of_decide_eq_true hahead))]
    exact ⟨_, rfl, rfl⟩

theorem requireAliasNameAvailable_free (free : db.aliases.get (space, n) = none)
    (elapsed : ahead now (db.tombstones.get (space, n)) = none) :
    ∃ db', requireAliasNameAvailable space n (inUnit now grace db) = .ok () (inUnit now grace db') ∧
      (db' = db ∨ db' = { db with tombstones := db.tombstones.erase (space, n) }) := by
  rw [requireAliasNameAvailable_unbound free]
  cases htomb : db.tombstones.get (space, n) with
  | none => exact ⟨db, rfl, .inl rfl⟩
  | some until' =>
    rw [htomb, ahead, Option.filter_some] at elapsed
    have hle : until' ≤ now := not_lt.mp fun hlt => by simp [hlt] at elapsed
    refine ⟨_, ?_, .inr rfl⟩
    dsimp only
    rw [if_pos hle]
    rfl

/-- A name is available on both sides or on neither. -/
theorem Agrees.nameAvailable {f : Unit → RegM α} {g : Unit → SqlM β} (h : Mirrors now grace r db)
    (h0 : Mirrors now grace r origin) (hmem : space ∈ storageBuckets) (hfixed : Fixed n)
    (rest : ∀ r' db', Mirrors now grace r' db' → Mirrors now grace r' origin →
      db'.assets = db.assets →
      db'.aliases = db.aliases → db.aliases.get (space, n) = none →
      Agrees now grace origin R (f () (inMemory now r')) (g () (inUnit now grace db'))) :
    Agrees now grace origin R ((AssetStore.requireAliasNameAvailable space n >>= f)
      (inMemory now r))
      ((requireAliasNameAvailable space n >>= g) (inUnit now grace db)) := by
  have hslash : '/' ∉ space := bucket_no_slash hmem
  have hkey : qualifiedAlias space n = .ok (space ++ '/' :: n) :=
    qualifiedAlias_eq_ok.mpr ⟨space, n, normalizeBucket_of_mem hmem, hfixed, rfl⟩
  have halias := h.aliases space n hslash
  have htomb := h.tombstones space n hslash
  by_cases taken : (db.aliases.get (space, n)).isSome ∨
    (ahead now (db.tombstones.get (space, n))).isSome
  · obtain ⟨e, hcls, hraise⟩ : ∃ e : Err, e.cls = .aliasConflict ∧
        requireAliasNameAvailable space n (inUnit now grace db) =
          .error (.domain e) (inUnit now grace db) :=
      requireAliasNameAvailable_taken taken
    rw [← halias, ← htomb] at taken
    have hblocked := aliasNameIsBlocked_true hkey taken
    have hleft : AssetStore.requireAliasNameAvailable space n (inMemory now r) = .error
        { cls := .aliasConflict, message := "alias %r already exists or is within grace period"
          args := [space ++ '/' :: n] } (inMemory now r) := by
      refine (bind_of_ok hblocked).trans ?_
      rw [if_pos rfl, hkey]
      rfl
    rw [bind_of_error hleft, bind_of_error hraise]
    exact .raised hcls.symm h0
  · obtain ⟨hfree, hahead⟩ := not_or.mp taken
    have hfree : db.aliases.get (space, n) = none := Option.not_isSome_iff_eq_none.mp hfree
    have helapsed := Option.not_isSome_iff_eq_none.mp hahead
    obtain ⟨db', hright, hdb'⟩ : ∃ db', requireAliasNameAvailable space n (inUnit now grace db) =
        .ok () (inUnit now grace db') ∧
          (db' = db ∨ db' = { db with tombstones := db.tombstones.erase (space, n) }) :=
      requireAliasNameAvailable_free hfree helapsed
    obtain ⟨r', hblocked, hr'⟩ := aliasNameIsBlocked_false hkey (halias.trans hfree)
      (htomb.trans helapsed)
    have hleft : AssetStore.requireAliasNameAvailable space n (inMemory now r) =
        .ok () (inMemory now r') :=
      (bind_of_ok hblocked).trans (by rw [if_neg Bool.false_ne_true]; rfl)
    have hforget : ∀ {d : Database}, Mirrors now grace r d → Mirrors now grace r' d := fun hd => by
      rcases hr' with rfl | rfl
      · exact hd
      · exact hd.forgetLeft (htomb.trans helapsed)
    refine .left hleft (.right hright ?_)
    rcases hdb' with rfl | rfl
    · exact rest r' db' (hforget h) (hforget h0) rfl rfl hfree
    · exact rest r' _ ((hforget h).forgetRight helapsed) (hforget h0) rfl rfl hfree

/-- A scoped path is a fixed point when its parts are. -/
theorem fixed_aliasUnderPartition {pid path : Text} (hpid : Fixed pid) (settled : Settled name)
    (h : aliasUnderPartition pid name = .ok path) : Fixed path := by
  obtain ⟨rel, root, hrel, hroot, rfl⟩ := aliasUnderPartition_eq_ok.mp h
  obtain rfl : pid = root := Except.ok.inj (hpid.symm.trans hroot)
  split
  · exact settled rel hrel
  · exact normalizeRelativeAlias_under hpid (settled rel hrel)

theorem insertAlias_eq {b : AliasBinding} {d : Database}
    (free : d.aliases.get (b.space, b.aliasName) = none) :
    insertAlias b (inUnit now grace d) =
      .ok () (inUnit now grace { d with aliases := d.aliases.set (b.space, b.aliasName) b }) := by
  refine (bind_of_ok rfl).trans ?_
  rw [if_neg]
  · rfl
  · rw [show (fun db : Database => db.aliases.get (b.space, b.aliasName)) (inUnit now grace d).db =
      none from free]
    simp

theorem attachAlias_agrees {mutable : Bool} (h : Mirrors now grace r db) (settled : Settled name) :
    Agrees now grace db Eq (AssetStore.attachAlias id name mutable caller (inMemory now r))
      (attachAlias id name mutable caller (inUnit now grace db)) := by
  refine .transactional (.load h h fun row get => .check Iff.rfl rfl h fun _ => ?_)
  have hformed := h.formed.row_formed _ _ get
  have same : SameAsset row { row with updatedAt := now } := ⟨rfl, rfl, rfl, hformed.sized⟩
  refine .left (attempt_of_ok (normalizeBucket_of_mem hformed.space)) (.sameCode h fun n hn => ?_)
  have hfixed : Fixed n := fixed_aliasUnderPartition hformed.partition settled hn
  have hkey : qualifiedAlias row.space n = .ok (row.space ++ '/' :: n) :=
    qualifiedAlias_eq_ok.mpr ⟨_, _, normalizeBucket_of_mem hformed.space, hfixed, rfl⟩
  refine .nameAvailable h h hformed.space hfixed fun r' db' h' _ hassets haliases hfree => ?_
  have get' : db'.assets.get id = some row := by rw [hassets, get]
  have hfree' : db'.aliases.get (row.space, n) = none := haliases ▸ hfree
  have hbind := (h'.bindAlias
    (b :=
      { space := row.space, aliasName := n, assetId := some id, mutable, previousAssetId := none
        createdAt := now, updatedAt := now, createdByServiceId := caller })
    get' same rfl (by rw [Database.boundTo, hfree']; rfl) ⟨rfl, rfl⟩ hfixed rfl).log
      { action := .aliasAttach, target := row.space ++ '/' :: n, callerServiceId := caller,
        outcome := "success".toList
        before := mapping [], ts := now
        after := mapping [("asset_id".toList, id), ("mutable".toList, showLower mutable)] }
  refine .left (attempt_of_ok hkey)
    (.left rfl (.left rfl (.left (addAliasToAsset_eq (h'.get_some get')) (.left rfl ?_))))
  have hinsert : ∀ (b : AliasBinding) (e : Err), b.space = row.space → b.aliasName = n →
      onUniqueViolation (insertAlias b) e (inUnit now grace db') =
        .ok () (inUnit now grace { db' with aliases := db'.aliases.set (row.space, n) b }) := by
    rintro b e hspace rfl
    rw [onUniqueViolation, Postgres.transactional, insertAlias_eq (by rw [hspace, hfree']), hspace]
  refine .right rfl (.right (hinsert _ _ rfl rfl)
    (.right (h'.updateRow get' _ rfl) (.right rfl ?_)))
  rw [loadBinding_stored (Dict.get_set_self _ _ _)]
  exact .returned rfl hbind

end Names

/-! ### Reservations -/

/-- The path of a name under the partition, both being fixed points. -/
def pathUnder (pid name : Text) : Text := if isUnder pid name then name else pid ++ '/' :: name

section Reservations

variable {pid n : Text} {K : Finset Text} {row : AssetRow}

theorem aliasUnderPartition_fixed (hpid : Fixed pid) (hn : Fixed n) :
    aliasUnderPartition pid n = .ok (pathUnder pid n) :=
  aliasUnderPartition_eq_ok.mpr ⟨n, pid, hn, hpid, rfl⟩

theorem fixed_pathUnder (hpid : Fixed pid) (hn : Fixed n) : Fixed (pathUnder pid n) := by
  unfold pathUnder
  split
  · exact hn
  · exact normalizeRelativeAlias_under hpid hn

theorem qualifiedAlias_fixed (hmem : space ∈ storageBuckets) (hn : Fixed n) :
    qualifiedAlias space n = .ok (space ++ '/' :: n) :=
  qualifiedAlias_eq_ok.mpr ⟨space, n, normalizeBucket_of_mem hmem, hn, rfl⟩

/-- The names of a reservation are available on both sides, or one of them is on neither. -/
theorem Agrees.namesAvailable {f : Unit → RegM α} {g : Unit → SqlM β}
    (hmem : space ∈ storageBuckets)
     (hpid : Fixed pid) : ∀ {names : List Text} {r : Registry} {db : Database},
    Mirrors now grace r db → Mirrors now grace r origin → (∀ n ∈ names, Fixed n) →
    (∀ r' db', Mirrors now grace r' db' → Mirrors now grace r' origin → db'.assets = db.assets →
      db'.aliases = db.aliases → (∀ n ∈ names, db.aliases.get (space, pathUnder pid n) = none) →
      Agrees now grace origin R (f () (inMemory now r')) (g () (inUnit now grace db'))) →
    Agrees now grace origin R ((AssetStore.requireNamesAvailable space pid names >>= f)
      (inMemory now r))
      ((requireNamesAvailable space (names.map (pathUnder pid)) >>= g) (inUnit now grace db))
  | [], r, db, h, h0, _, rest => .left rfl (.right rfl (rest r db h h0 rfl rfl (by simp)))
  | n :: names, r, db, h, h0, hfixed, rest => by
    have hn : Fixed n := hfixed n (by simp)
    simp only [AssetStore.requireNamesAvailable, List.map_cons, requireNamesAvailable, bind_assoc]
    refine .left (attempt_of_ok (aliasUnderPartition_fixed hpid hn)) ?_
    refine .nameAvailable h h0 hmem (fixed_pathUnder hpid hn) fun r1 db1 h1 h01 hassets
      haliases hfree => ?_
    refine .namesAvailable hmem hpid h1 h01
      (fun m hm => hfixed m (by simp [hm])) fun r2 db2 h2 h02 hassets2 haliases2 hfrees => ?_
    refine rest r2 db2 h2 h02 (hassets2.trans hassets) (haliases2.trans haliases) fun m hm => ?_
    rcases List.mem_cons.mp hm with rfl | hm
    · exact hfree
    · rw [← haliases]
      exact hfrees m hm

/-- The bindings of a reservation and its alias rows. In memory the assets are `S` from the start,
with all the keys `K`; the tables mirror the registry in which the asset has the keys bound so
far. -/
theorem Agrees.namesBound {f : Unit → RegM α} {g : Unit → SqlM β} {m : Text → Bool}
    {S : Dict Text Asset}
    (hpid : Fixed pid) (hmem : row.space ∈ storageBuckets) :
    ∀ {names : List Text} {r : Registry} {db : Database}
    {A : Finset Text}, Mirrors now grace r db → db.assets.get id = some row →
      r.assets.get id = some ⟨row, A⟩ →
    S = r.assets.set id ⟨row, K⟩ → (∀ n ∈ names, Fixed n) → (names.map (pathUnder pid)).Nodup →
    (∀ n ∈ names, db.aliases.get (row.space, pathUnder pid n) = none) →
    (∀ r' db', Mirrors now grace r' db' → S = r'.assets.set id ⟨row, K⟩ →
      r'.assets.get id = some ⟨row, A ∪
        (names.map fun n => row.space ++ '/' :: pathUnder pid n).toFinset⟩ →
      Agrees now grace origin R (f () (inMemory now { r' with assets := S }))
        (g () (inUnit now grace db'))) →
    Agrees now grace origin R
      ((bindNames row.space pid id caller now (names.map fun n => (n, m n)) >>= f)
        (inMemory now { r with assets := S }))
      ((insertNames row.space id caller now (names.map fun n => (pathUnder pid n, m n)) >>= g)
        (inUnit now grace db))
  | [], r, db, A, h, get, hA, hS, _, _, _, rest =>
    .left rfl (.right rfl (rest r db h hS (by simpa using hA)))
  | n :: names, r, db, A, h, get, hA, hS, hfixed, hnodup, hfree, rest => by
    have hn : Fixed n := hfixed n (by simp)
    have hpath := fixed_pathUnder hpid hn
    have hnone : db.aliases.get (row.space, pathUnder pid n) = none := hfree n (by simp)
    obtain ⟨hnotin, hnodup⟩ := List.nodup_cons.mp hnodup
    obtain rfl : db.aliasNames row = A :=
      congrArg Asset.aliases (Option.some.inj ((h.get_some get).symm.trans hA))
    let b : AliasBinding :=
      { space := row.space, aliasName := pathUnder pid n, assetId := some id, mutable := m n
        previousAssetId := none, createdAt := now, updatedAt := now, createdByServiceId := caller }
    have same : SameAsset row row := ⟨rfl, rfl, rfl, (h.formed.row_formed _ _ get).sized⟩
    have hbind := (h.bindAlias (b := b) get same rfl (by rw [Database.boundTo, hnone]; rfl)
      ⟨rfl, rfl⟩ hpath rfl).log
      { action := .aliasCreate, target := row.space ++ '/' :: pathUnder pid n,
        callerServiceId := caller
        outcome := "success".toList, before := mapping [], ts := now
        after := mapping [("asset_id".toList, id), ("mutable".toList, showLower (m n))] }
    simp only [Dict.set_of_get get] at hbind
    simp only [List.map_cons, bindNames, insertNames, bind_assoc]
    refine .left (attempt_of_ok (aliasUnderPartition_fixed hpid hn))
      (.left (attempt_of_ok (qualifiedAlias_fixed hmem hpath)) ?_)
    refine .left rfl (.left rfl (.right (insertAlias_eq hnone) (.right rfl ?_)))
    refine namesBound hpid hmem hbind get (Dict.get_set_self _ _ _)
      (hS.trans (Dict.set_set _ _ _ _).symm)
      (fun k hk => hfixed k (by simp [hk])) hnodup (fun k hk => ?_) fun r' db' h' hS' hnames =>
        rest r' db' h' hS' ?_
    · -- the names are apart, so the new row is not this one
      have hne : pathUnder pid k ≠ pathUnder pid n :=
        fun heq => hnotin (heq ▸ List.mem_map_of_mem hk)
      exact (Dict.get_set_ne _ _ fun heq => hne (Prod.mk.inj heq).2).trans (hfree k (by simp [hk]))
    · rw [hnames, List.map_cons, List.toFinset_cons, Finset.union_insert, Finset.insert_union]

/-- A reservation that both registries take alike: its size is not negative, its paths are settled,
and no two of its names land on one path. -/
structure Plain (req : ReserveRequest) : Prop where
  nonneg : ∀ n ∈ req.reservedBytes, 0 ≤ n
  partition : Settled req.partitionId
  names : ∀ spec ∈ req.aliases, Settled spec.1
  apart : ∀ spec ∈ req.aliases, ∀ spec' ∈ req.aliases, ∀ path,
    aliasUnderPartition req.partitionId spec.1 = .ok path →
      aliasUnderPartition req.partitionId spec'.1 = .ok path →
      normalizeRelativeAlias spec.1 = normalizeRelativeAlias spec'.1

namespace Plain

variable {req : ReserveRequest} {specs : Dict Text Bool}

theorem fixed (plain : Plain req) (hspecs : normalizeAliasSpecs req.aliases = .ok specs) :
    ∀ n ∈ specs.keys, Fixed n := by
  intro n hn
  obtain ⟨spec, hspec, rfl⟩ := (mem_specs_keys hspecs).mp hn
  exact plain.names spec hspec _ ((normalizeAliasSpecs_eq_ok hspecs).1 spec hspec).1

/-- The paths of the names are pairwise different. -/
theorem nodup (plain : Plain req) (hspecs : normalizeAliasSpecs req.aliases = .ok specs)
    (hpid : normalizePartitionId req.partitionId = .ok pid) :
    (specs.keys.map (pathUnder pid)).Nodup := by
  refine List.Nodup.map_on (fun n hn n' hn' heq => ?_) specs.nodup
  obtain ⟨spec, hspec, rfl⟩ := (mem_specs_keys hspecs).mp hn
  obtain ⟨spec', hspec', rfl⟩ := (mem_specs_keys hspecs).mp hn'
  have hname := ((normalizeAliasSpecs_eq_ok hspecs).1 spec hspec).1
  have hname' := ((normalizeAliasSpecs_eq_ok hspecs).1 spec' hspec').1
  have hsame := plain.apart spec hspec spec' hspec' (pathUnder pid (trimPath spec.1))
    (aliasUnderPartition_eq_ok.mpr ⟨_, _, hname, hpid, rfl⟩)
    (aliasUnderPartition_eq_ok.mpr ⟨_, _, hname', hpid, heq.symm⟩)
  exact Except.ok.inj (hname.symm.trans (hsame.trans hname'))

end Plain

theorem pureCode_of_ok {x : Except Err α} {a : α} {t : UnitOfWork} (h : x = .ok a) :
    pureCode x t = .ok a t := by
  rw [h]
  rfl

/-- The admission of a sized reservation. -/
theorem Agrees.admitReservation {f : Unit → RegM α} {g : Unit → SqlM β} {bytes : Option Int}
    (h : Mirrors now grace r db)
    (h0 : Mirrors now grace r origin) (hspace : space ∈ storageBuckets) (hpid : Fixed pid)
    (nonneg : ∀ n ∈ bytes, 0 ≤ n)
    (rest : ∀ db', Mirrors now grace r db' → db'.assets = db.assets → db'.aliases = db.aliases →
      Agrees now grace origin R (f () (inMemory now r)) (g () (inUnit now grace db'))) :
    Agrees now grace origin R ((AssetStore.admitReservation env space pid bytes >>= f)
      (inMemory now r))
      ((admitReservation env space pid bytes >>= g) (inUnit now grace db)) := by
  cases bytes with
  | none => exact .left rfl (.right rfl (rest db h rfl rfl))
  | some n =>
    have hn : ¬n < 0 := not_lt.mpr (nonneg n rfl)
    simp only [AssetStore.admitReservation, Postgres.admitReservation, bind_assoc]
    exact .left (attempt_of_ok (a := ()) (raiseIf_eq_ok.mpr hn)) (.enforce h h0 hspace hpid rest)

theorem Agrees.auditReservation {f : Unit → RegM α} {g : Unit → SqlM β} {bytes : Option Int}
    (h : Mirrors now grace r db)
    (rest : ∀ r' db', Mirrors now grace r' db' → r'.assets = r.assets →
      Agrees now grace origin R (f () (inMemory now r')) (g () (inUnit now grace db'))) :
    Agrees now grace origin R ((AssetStore.auditReservation id caller bytes >>= f) (inMemory now r))
      ((auditReservation id caller bytes >>= g) (inUnit now grace db)) := by
  cases bytes with
  | none => exact .left rfl (.right rfl (rest r db h rfl))
  | some n => exact .left rfl (.right rfl (rest _ _ (h.log _) rfl))

theorem insertAsset_eq {d : Database} (fresh : d.assets.get row.assetId = none) :
    insertAsset row (inUnit now grace d) =
      .ok () (inUnit now grace { d with assets := d.assets.set row.assetId row }) := by
  refine (bind_of_ok rfl).trans ?_
  rw [if_neg]
  · rfl
  · rw [show (fun db : Database => db.assets.get row.assetId) (inUnit now grace d).db =
      none from fresh]
    simp

theorem reserveAsset_agrees {newId : Text} {req : ReserveRequest} (h : Mirrors now grace r db)
    (plain : Plain req)
    (fresh : db.assets.get newId = none) (hid : stripSpace newId ≠ []) :
    Agrees now grace db Eq (AssetStore.reserveAsset env newId req (inMemory now r))
      (reserveAsset env newId req (inUnit now grace db)) := by
  have hnonneg : ¬∃ n ∈ req.reservedBytes, n < 0 :=
    fun ⟨n, hn, hneg⟩ => not_lt.mpr (plain.nonneg n hn) hneg
  refine .transactional (.right (pureCode_of_ok (a := ()) (raiseIf_eq_ok.mpr hnonneg)) ?_)
  refine .sameCode h fun s hs => .sameCode h fun p hp => .sameCode h fun specs hspecs => ?_
  have hmem : s ∈ storageBuckets := (normalizeBucket_eq_ok.mp hs).2
  have hpid : Fixed p := plain.partition p hp
  have hfixed := plain.fixed hspecs
  have hpaths : specs.keys.mapM (aliasUnderPartition p) = .ok (specs.keys.map (pathUnder p)) :=
    mapM_of_ok fun n hn => aliasUnderPartition_fixed hpid (hfixed n hn)
  have hkeys : specs.keys.mapM (scopedKey s p) =
      .ok (specs.keys.map fun n => s ++ '/' :: pathUnder p n) :=
    mapM_of_ok fun n hn => by
      rw [scopedKey, aliasUnderPartition_fixed hpid (hfixed n hn)]
      exact qualifiedAlias_fixed hmem (fixed_pathUnder hpid (hfixed n hn))
  have hstorage : buildStorageKey p newId = .ok (p ++ "/assets/".toList ++ stripSpace newId) :=
    except_bind_eq_ok.mpr ⟨p, hpid, except_bind_eq_ok.mpr ⟨(), raiseIf_eq_ok.mpr hid, rfl⟩⟩
  refine .right (pureCode_of_ok hpaths) (.right rfl (.right (pureCode_of_ok hstorage) ?_))
  refine .namesAvailable hmem hpid h h hfixed fun r1 db1 h1 h01 hassets haliases hfree => ?_
  refine .admitReservation h1 h01 hmem hpid plain.nonneg fun db2 h2 hassets2 haliases2 => ?_
  refine .left rfl (.left (attempt_of_ok hkeys)
    (.left (attempt_of_ok hstorage) (.sameCode h01 fun expiresAt _ => ?_)))
  let row : AssetRow :=
    { assetId := newId, space := s, partitionId := p,
      storageKey := p ++ "/assets/".toList ++ stripSpace newId
      state := .pending, mime := req.mime, annotations := req.annotations
      evictionPolicy := req.evictionPolicy, ownerServiceId := req.ownerServiceId
      createdAt := now, updatedAt := now, expiresAt, reservedBytes := req.reservedBytes }
  have hrow : RowFormed row := ⟨hmem, hpid, fun n hn => by cases hn⟩
  have hfresh : db2.assets.get row.assetId = none := by rw [hassets2, hassets, fresh]
  have hinserted := h2.insertRow hfresh hrow
  have hrest : ∀ n ∈ specs.keys,
      { db2 with assets := db2.assets.set row.assetId row }.aliases.get (row.space, pathUnder p n) =
        none := fun n hn => by
    change db2.aliases.get (s, pathUnder p n) = none
    rw [haliases2, haliases]
    exact hfree n hn
  refine .left rfl (.right (insertAsset_eq hfresh) ?_)
  rw [List.zip_map']
  refine .namesBound (r := { r1 with assets := r1.assets.set newId ⟨row, ∅⟩ }) hpid hmem hinserted
    (Dict.get_set_self _ _ _) (Dict.get_set_self _ _ _)
    (Dict.set_set _ _ _ _).symm hfixed (plain.nodup hspecs hp) hrest fun r' db' h' hS hstored => ?_
  rw [Finset.empty_union] at hstored
  rw [hS, Dict.set_of_get hstored]
  exact .auditReservation h' fun r'' db'' h'' hsame => .reload h'' (hsame ▸ hstored)

end Reservations

end AssetStore.Postgres
