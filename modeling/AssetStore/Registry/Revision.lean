import AssetStore.Registry.Clock
import AssetStore.Registry.States
import Mathlib.Data.Int.ConditionallyCompleteOrder

/-! The revision of an asset is the instant of its last update. A call gives an asset that it
changes a reading of the clock as its new revision, except that a maintenance update gives it the
instant that it is called with; a read of the payload keeps the revision. -/

namespace AssetStore

open Lib

/-- The asset without what a read of its payload changes. -/
def Asset.unread (a : Asset) : Asset := { a with lastReadAt := none, readCount := 0 }

theorem Asset.updatedAt_of_unread {a a' : Asset} (h : a'.unread = a.unread) :
    a'.updatedAt = a.updatedAt := by
  change a'.unread.updatedAt = a.unread.updatedAt
  rw [h]

/-- The clock advances, `t` is in the past, and the assets are stored under their ids. -/
structure Running (t : Time) (s : Session) : Prop where
  clock : StrictMono s.clock
  past : t < s.clock 0
  filed : s.reg.Filed

/-- Readings were taken, and each asset is the same up to reads of its payload, or has a revision
that is in the past and allowed for it. -/
structure Revised (ok : Text → Time → Prop) (s s' : Session) : Prop where
  later : Later s s'
  filed : s'.reg.Filed
  revision : ∀ id a', s'.reg.assets.get id = some a' →
    (∃ a, s.reg.assets.get id = some a ∧ a'.unread = a.unread) ∨
      ok id a'.updatedAt ∧ a'.updatedAt < s'.clock 0

/-- Once `t` is in the past, the session changes only as `Revised` says. -/
def Revises (ok : Text → Time → Prop) (t : Time) (s s' : Session) : Prop :=
  Running t s → Revised ok s s'

variable {ok : Text → Time → Prop} {t : Time} {s s' : Session}

theorem Later.clock_zero_le (h : Later s s') (mono : StrictMono s.clock) :
    s.clock 0 ≤ s'.clock 0 := by
  obtain ⟨n, hn⟩ := h
  rw [hn]
  exact mono.monotone (Nat.zero_le _)

theorem Later.strictMono (h : Later s s') (mono : StrictMono s.clock) : StrictMono s'.clock := by
  obtain ⟨n, hn⟩ := h
  rw [hn]
  exact mono.comp (strictMono_id.const_add n)

theorem Revised.running (h : Revised ok s s') (hs : Running t s) : Running t s' where
  clock := h.later.strictMono hs.clock
  past := hs.past.trans_le (h.later.clock_zero_le hs.clock)
  filed := h.filed

theorem Revised.of_assets (hs : Running t s) (later : Later s s')
    (assets : s'.reg.assets = s.reg.assets) :
    Revised ok s s' where
  later := later
  filed := by
    intro id a get
    rw [assets] at get
    exact hs.filed id a get
  revision := by
    intro id a get
    rw [assets] at get
    exact .inl ⟨a, get, rfl⟩

instance : Frame (Revises ok t) where
  refl s hs := .of_assets hs (Closed.refl s) rfl
  trans := by
    intro s s' s'' h h' hs
    have hfirst := h hs
    have hsecond := h' (hfirst.running hs)
    refine ⟨Closed.trans hfirst.later hsecond.later, hsecond.filed, fun id a'' get => ?_⟩
    rcases hsecond.revision id a'' get with ⟨a', get', hsame⟩ | hnew
    · rcases hfirst.revision id a' get' with ⟨a, get'', hsame'⟩ | ⟨hok, hpast⟩
      · exact .inl ⟨a, get'', hsame.trans hsame'⟩
      · rw [← Asset.updatedAt_of_unread hsame] at hok hpast
        refine .inr ⟨hok, hpast.trans_le ?_⟩
        exact hsecond.later.clock_zero_le (hfirst.running hs).clock
    · exact .inr hnew
  tick s hs := .of_assets hs (Frame.tick s) rfl

namespace Revises

variable {α β : Type} {id : Text} {a : Asset}

/-- After a clock reading, the reading is in the past. -/
theorem reading {g : Time → RegM α} (h : ∀ now, t < now → Within (Revises ok now) (g now)) :
    Within (Revises ok t) (utcnow >>= g) := by
  intro s hs
  have htick : Running (s.clock 0) s.tick :=
    ⟨(Later.strictMono (Frame.tick s) hs.clock), hs.clock Nat.zero_lt_one, hs.filed⟩
  have hrest := h (s.clock 0) hs.past s.tick htick
  rw [bind_of_ok utcnow_eq]
  exact ⟨Closed.trans (Frame.tick s) hrest.later, hrest.filed, hrest.revision⟩

/-- A stored asset has the id that it is stored under. -/
theorem getAsset {g : Asset → RegM α} (h : ∀ a, a.assetId = id → Within (Revises ok t) (g a)) :
    Within (Revises ok t) (getAsset id >>= g) := fun s hs =>
  Lib.final_bind (P := fun s' => Revised ok s s')
    (fun _ _ hraised => (Within.getAsset (R := Revises ok t)).error hraised hs)
    fun a s' hget => by
      obtain ⟨get, rfl⟩ := getAsset_eq_ok.mp hget
      exact h a (hs.filed id a get) s hs

theorem putAsset (hid : a.assetId = id) (hok : ok id a.updatedAt) (past : a.updatedAt ≤ t) :
    Within (Revises ok t) (putAsset id a) := by
  intro s hs
  have hget : ∀ key b, (s.put id a).reg.assets.get key = some b →
      key = id ∧ b = a ∨ s.reg.assets.get key = some b := by
    intro key b get
    change (s.reg.assets.set id a).get key = some b at get
    rw [Dict.get_set] at get
    split at get
    · exact .inl ⟨‹_›, (Option.some.inj get).symm⟩
    · exact .inr get
  refine ⟨Later.updateTables s, fun key b get => ?_, fun key b get => ?_⟩
  · rcases hget key b get with ⟨rfl, rfl⟩ | hold
    · exact hid
    · exact hs.filed key b hold
  · rcases hget key b get with ⟨rfl, rfl⟩ | hold
    · exact .inr ⟨hok, past.trans_lt hs.past⟩
    · exact .inl ⟨b, hold, rfl⟩

theorem updateTables {f : Registry → Registry} (h : ∀ r, (f r).assets = r.assets) :
    Within (Revises ok t) (updateTables f) := fun s hs =>
  .of_assets hs (Later.updateTables s) (h s.reg)

theorem audit {action : AuditAction} {target caller outcome : Text}
    {before after : List (Text × Text)} :
    Within (Revises ok t) (audit action target caller before after outcome) :=
  Within.bind Within.utcnow fun _ => updateTables fun _ => rfl

theorem acquireQuota {space pid : Text} {n : Int} :
    Within (Revises ok t) (acquireQuota space pid n) :=
  Within.bind Within.partitionQuota fun _ => Within.bind (updateTables fun _ => rfl) fun _ =>
    Within.bind Within.bucketQuota fun _ => updateTables fun _ => rfl

theorem releaseQuota {a : Asset} : Within (Revises ok t) (releaseQuota a) :=
  Within.ite (Within.bind Within.partitionQuota fun _ =>
    Within.bind (updateTables fun _ => rfl) fun _ =>
    Within.bind Within.bucketQuota fun _ => updateTables fun _ => rfl) Within.pure

theorem drops (s : Session) (key : Text) : Revises ok t s
    { s with reg := { s.reg with tombstones := s.reg.tombstones.erase key } } := fun hs =>
  .of_assets hs ⟨0, by simp⟩ rfl

theorem requireAliasNameAvailable {space name : Text} :
    Within (Revises ok t) (requireAliasNameAvailable space name) :=
  Within.requireAliasNameAvailable drops

theorem bindNames {space pid id owner : Text} {now : Time} :
    ∀ names, Within (Revises ok t) (bindNames space pid id owner now names)
  | [] => Within.pure
  | _ :: rest =>
    Within.bind Within.attempt fun _ => Within.bind Within.attempt fun _ =>
      Within.bind (updateTables fun _ => rfl) fun _ => Within.bind audit fun _ => bindNames rest

theorem auditReservation {id owner : Text} : ∀ reserved,
    Within (Revises ok t) (auditReservation id owner reserved)
  | none => Within.pure
  | some _ => audit

theorem buryName {key : Text} : Within (Revises ok t) (buryName key) :=
  Within.bind Within.tables fun _ =>
    Within.ite (Within.bind Within.utcnow fun _ => Within.bind Within.attempt fun _ =>
      updateTables fun _ => rfl) Within.pure

theorem admitRestore {env : Env} {a : Asset} : Within (Revises ok t) (admitRestore env a) :=
  Within.ite (Within.bind Within.enforceQuota fun _ => acquireQuota) Within.pure

/-! ### Operations -/

section Ops

variable (fresh : ∀ id now, t < now → ok id now) {env : Env} {caller key name space : Text}
include fresh

theorem addAliasToAsset : Within (Revises ok t) (addAliasToAsset id key) :=
  getAsset fun _ hid => reading fun now hpast => putAsset hid (fresh id now hpast) le_rfl

theorem removeAliasFromAsset : Within (Revises ok t) (removeAliasFromAsset id key) :=
  getAsset fun _ hid => reading fun now hpast => putAsset hid (fresh id now hpast) le_rfl

theorem later {t' : Time} (h : t < t') : ∀ id now, t' < now → ok id now :=
  fun id now hnow => fresh id now (h.trans hnow)

theorem markForGcIfOrphaned : Within (Revises ok t) (markForGcIfOrphaned id caller) := by
  refine getAsset fun a hid => Within.ite Within.pure ?_
  refine reading fun now hpast => reading fun t' hlater => ?_
  exact Within.bind (putAsset hid (fresh id now hpast) hlater.le) fun _ =>
    Within.bind releaseQuota fun _ => audit

theorem reserveAsset {newId : Text} {req : ReserveRequest} :
    Within (Revises ok t) (reserveAsset env newId req) := by
  refine Within.bind Within.attempt fun _ => Within.bind Within.attempt fun _ =>
    Within.bind Within.attempt fun _ => ?_
  refine Within.bind (Within.requireNamesAvailable drops _) fun _ =>
    Within.bind (Within.admitReservation _) fun _ => ?_
  refine reading fun now hpast => Within.bind Within.attempt fun _ =>
    Within.bind Within.attempt fun _ =>
    Within.bind Within.attempt fun _ => ?_
  exact Within.bind (putAsset rfl (fresh newId now hpast) le_rfl) fun _ =>
    Within.bind (bindNames _) fun _ => Within.bind (auditReservation _) fun _ => Within.pure

theorem attachAlias {mutable : Bool} :
    Within (Revises ok t) (attachAlias id name mutable caller) := by
  refine Within.bind Within.getAsset fun _ => Within.bind Within.attempt fun _ =>
    Within.bind Within.attempt fun _ => Within.bind Within.attempt fun _ => ?_
  refine Within.bind requireAliasNameAvailable fun _ => Within.bind Within.attempt fun _ =>
    reading fun now hpast => Within.bind (updateTables fun _ => rfl) fun _ => ?_
  exact Within.bind (addAliasToAsset (later fresh hpast)) fun _ =>
    Within.bind audit fun _ => Within.pure

theorem commitAsset {checksum : Text} {size : Int} {mime expected : Option Text} :
    Within (Revises ok t) (commitAsset env id size checksum caller mime expected) := by
  refine Within.bind Within.attempt fun _ => Within.bind Within.attempt fun _ =>
    Within.bind Within.attempt fun _ => getAsset fun a hid => ?_
  refine Within.bind Within.attempt fun _ => Within.bind Within.attempt fun _ =>
    Within.bind Within.enforceQuota fun _ => reading fun now hpast => ?_
  exact Within.bind (putAsset hid (fresh id now hpast) le_rfl) fun _ =>
    Within.bind acquireQuota fun _ => Within.bind audit fun _ => Within.pure

theorem updateAnnotations {patch : Mapping} {overwrite : Bool} :
    Within (Revises ok t) (updateAnnotations id patch caller overwrite) := by
  refine getAsset fun a hid => Within.bind Within.attempt fun _ => reading fun now hpast => ?_
  exact Within.bind (putAsset hid (fresh id now hpast) le_rfl) fun _ =>
    Within.bind Within.utcnow fun _ =>
    Within.bind (updateTables fun _ => rfl) fun _ => Within.pure

theorem detachAlias : Within (Revises ok t) (detachAlias space name caller) := by
  refine Within.bind Within.getBinding fun _ => Within.bind Within.attempt fun _ =>
    Within.bind Within.attempt fun _ => Within.bind Within.attempt fun _ => ?_
  exact Within.bind (updateTables fun _ => rfl) fun _ =>
    Within.bind (removeAliasFromAsset fresh) fun _ =>
    Within.bind buryName fun _ => Within.bind audit fun _ => markForGcIfOrphaned fresh

theorem detachMutableAlias : Within (Revises ok t) (detachMutableAlias space name caller) := by
  refine Within.bind Within.getBinding fun _ => Within.bind Within.attempt fun _ =>
    Within.bind Within.attempt fun _ => Within.bind Within.attempt fun _ => ?_
  exact Within.bind (removeAliasFromAsset fresh) fun _ => Within.bind Within.utcnow fun _ =>
    Within.bind (updateTables fun _ => rfl) fun _ => Within.bind audit fun _ =>
      Within.bind (markForGcIfOrphaned fresh) fun _ => Within.pure

theorem rebindAlias : Within (Revises ok t) (rebindAlias space name id caller) := by
  refine Within.bind Within.getBinding fun _ => Within.bind Within.attempt fun _ =>
    Within.bind Within.attempt fun _ => Within.bind Within.getAsset fun _ => ?_
  refine Within.bind Within.attempt fun _ => Within.bind Within.attempt fun _ =>
    Within.bind Within.attempt fun _ => Within.bind Within.attempt fun _ =>
      Within.bind Within.attempt fun _ => ?_
  exact Within.bind Within.utcnow fun _ => Within.bind (updateTables fun _ => rfl) fun _ =>
    Within.bind (addAliasToAsset fresh) fun _ => Within.bind audit fun _ => Within.pure

theorem expireAsset : Within (Revises ok t) (expireAsset id caller) := by
  refine getAsset fun a hid => Within.bind Within.attempt fun _ => ?_
  refine reading fun now hpast => reading fun t' hlater => ?_
  exact Within.bind (putAsset hid (fresh id now hpast) hlater.le) fun _ =>
    Within.bind releaseQuota fun _ => Within.bind audit fun _ => Within.pure

theorem deleteAsset : Within (Revises ok t) (deleteAsset id caller) := by
  refine getAsset fun a hid => Within.bind Within.attempt fun _ => reading fun now hpast => ?_
  exact Within.bind (putAsset hid (fresh id now hpast) le_rfl) fun _ =>
    Within.bind releaseQuota fun _ => Within.bind audit fun _ => Within.pure

theorem setEvictionPolicy {policy : EvictionPolicy} :
    Within (Revises ok t) (setEvictionPolicy id policy caller) := by
  refine getAsset fun a hid => Within.bind Within.attempt fun _ => reading fun now hpast => ?_
  exact Within.bind (putAsset hid (fresh id now hpast) le_rfl) fun _ =>
    Within.bind audit fun _ => Within.pure

theorem setAssetTtl {ttl : Int} : Within (Revises ok t) (setAssetTtl env id ttl caller) := by
  refine getAsset fun a hid => Within.bind Within.attempt fun _ =>
    Within.bind Within.attempt fun _ => ?_
  refine reading fun now hpast => Within.bind Within.attempt fun _ =>
    Within.bind admitRestore fun _ => ?_
  exact Within.bind (putAsset hid (fresh id now hpast) le_rfl) fun _ =>
    Within.bind audit fun _ => Within.pure

end Ops

/-- A read of the payload keeps the revision. -/
theorem recordRead : Within (Revises ok t) (recordRead id) := by
  intro s hs
  refine Lib.final_bind (P := fun s' => Revised ok s s')
    (fun _ _ hraised => (Within.getAsset (R := Revises ok t)).error hraised hs) fun a s' hget => ?_
  obtain ⟨get, rfl⟩ := getAsset_eq_ok.mp hget
  split
  · have hread : ∀ key b, (s.reg.assets.set id
        { a with lastReadAt := some (s.clock 0), readCount := a.readCount + 1 }).get key = some b →
        ∃ b', s.reg.assets.get key = some b' ∧ b.unread = b'.unread ∧ b.assetId = b'.assetId := by
      intro key b hb
      rw [Dict.get_set] at hb
      split at hb
      · rename_i heq
        subst heq
        obtain rfl := Option.some.inj hb
        exact ⟨a, get, rfl, rfl⟩
      · exact ⟨b, hb, rfl, rfl⟩
    refine ⟨(Frame.tick s : Later s s.tick), fun key b hb => ?_, fun key b hb => ?_⟩
    · obtain ⟨b', hb', -, hid⟩ := hread key b hb
      exact hid.trans (hs.filed key b' hb')
    · obtain ⟨b', hb', hsame, -⟩ := hread key b hb
      exact .inl ⟨b', hb', hsame⟩
  · exact .of_assets hs (Closed.refl s) rfl

theorem lifecycleUpdate {a : Asset} {state : AssetState} {now : Time} {reason : Text} {purge : Bool}
    (hok : ok a.assetId now) (past : now ≤ t) :
    Within (Revises ok t) (lifecycleUpdate a state now reason purge) :=
  Within.bind Within.getAsset fun _ => Within.bind Within.attempt fun _ =>
    Within.bind Within.attempt fun _ =>
    Within.bind releaseQuota fun _ => Within.bind (putAsset rfl hok past) fun _ =>
      Within.bind audit fun _ => Within.pure

theorem of_keeps {m : RegM α} (keeps : Keeps (fun r => r) m) (clock : Within Later m) :
    Within (Revises ok t) m := fun s hs =>
  .of_assets hs (clock s) (congrArg (fun r : Registry => r.assets) (keeps s))

/-- A call that is not a maintenance update gives the assets that it changes clock readings as their
revisions. -/
theorem call {env : Env} {op : Op} (fresh : ∀ id now, t < now → ok id now)
    (hop : ∀ a state now reason purge, op ≠ .lifecycleUpdate a state now reason purge) :
    Within (Revises ok t) (op.run env) := by
  have reply : ∀ {α β : Type} {m : RegM α} {f : α → β}, Within (Revises ok t) m →
      Within (Revises ok t) (m >>= fun x => pure (f x)) :=
        fun h => Within.bind h fun _ => Within.pure
  cases op with
  | recordCapabilityIssue => exact reply audit
  | reserveAsset newId req => exact reply (reserveAsset fresh)
  | attachAlias => exact reply (attachAlias fresh)
  | commitAsset => exact reply (commitAsset fresh)
  | updateAnnotations => exact reply (updateAnnotations fresh)
  | resolveAlias => exact reply Within.resolveAlias
  | detachAlias => exact reply (detachAlias fresh)
  | detachMutableAlias => exact reply (detachMutableAlias fresh)
  | rebindAlias => exact reply (rebindAlias fresh)
  | expireAsset => exact reply (expireAsset fresh)
  | deleteAsset => exact reply (deleteAsset fresh)
  | setEvictionPolicy => exact reply (setEvictionPolicy fresh)
  | setPartitionQuota =>
    exact reply (Within.bind Within.attempt fun _ => Within.bind Within.attempt fun _ =>
      Within.bind Within.partitionQuota fun _ => Within.bind (updateTables fun _ => rfl) fun _ =>
        Within.bind audit fun _ => Within.pure)
  | setBucketQuota =>
    exact reply (Within.bind Within.attempt fun _ => Within.bind Within.bucketQuota fun _ =>
      Within.bind (updateTables fun _ => rfl) fun _ => Within.pure)
  | getPartitionQuota => exact reply Within.partitionQuota
  | getBucketQuota => exact reply Within.bucketQuota
  | reservedUploadBytes =>
    exact reply (Within.bind Within.tables fun _ => Within.bind Within.attempt fun _ => Within.pure)
  | listAssets => exact reply (Within.bind Within.tables fun _ => Within.pure)
  | recordRead => exact reply recordRead
  | lifecycleUpdate a state now reason purge => exact (hop _ _ _ _ _ rfl).elim
  | recentAudit =>
    exact reply (Within.bind Within.attempt fun _ => Within.bind Within.tables fun _ => Within.pure)
  | getAsset => exact reply Within.getAsset
  | queryAssets =>
    exact reply (Within.bind Within.attempt fun _ => Within.bind Within.tables fun _ => Within.pure)
  | setAssetTtl => exact reply (setAssetTtl fresh)
  | auditEvents => exact Within.bind Within.tables fun _ => Within.pure

end Revises

end AssetStore
