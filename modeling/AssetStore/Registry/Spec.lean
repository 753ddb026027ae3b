import AssetStore.Registry

/-! What the operations of the registry do: one lemma for each primitive and for each operation,
from which the invariants follow without unfolding an operation again. -/

namespace AssetStore

open Lib

/-- The session after a clock reading. -/
def Session.tick (s : Session) : Session := { s with clock := fun n => s.clock (n + 1) }

@[simp] theorem Session.tick_reg (s : Session) : s.tick.reg = s.reg := rfl

/-- The session after an asset is stored. -/
def Session.put (s : Session) (id : Text) (a : Asset) : Session :=
  { s with reg := { s.reg with assets := s.reg.assets.set id a } }

section Primitives

variable {s s' : Session} {e : Err} {u : Unit}

theorem utcnow_eq : utcnow s = .ok (s.clock 0) s.tick := rfl

@[simp] theorem utcnow_eq_ok {t : Time} : utcnow s = .ok t s' ↔ s.clock 0 = t ∧ s.tick = s' := by
  simp [utcnow, Session.tick]

@[simp] theorem utcnow_eq_error : utcnow s = .error e s' ↔ False := by simp [utcnow]

@[simp] theorem tables_eq_ok {r : Registry} : tables s = .ok r s' ↔ s.reg = r ∧ s = s' := by
  simp [tables]

@[simp] theorem tables_eq_error : tables s = .error e s' ↔ False := by simp [tables]

@[simp] theorem updateTables_eq_ok {f : Registry → Registry} :
    updateTables f s = .ok u s' ↔ { s with reg := f s.reg } = s' := by
  simp [updateTables]

@[simp] theorem updateTables_eq_error {f : Registry → Registry} :
    updateTables f s = .error e s' ↔ False := by
  simp [updateTables]

theorem putAsset_eq {id : Text} {a : Asset} : putAsset id a s = .ok () (s.put id a) := rfl

theorem putAsset_eq_ok {id : Text} {a : Asset} : putAsset id a s = .ok u s' ↔ s.put id a = s' := by
  simp [putAsset_eq]

theorem putBinding_eq_ok {key : Text} {b : AliasBinding} :
    putBinding key b s = .ok u s' ↔
      { s with reg := { s.reg with aliases := s.reg.aliases.set key b } } = s' := by
  simp [putBinding]

@[simp] theorem mapping_lookup_cons {k v : Text} {rest : List (Text × Text)} :
    (mapping ((k, v) :: rest)).lookup k = some v := by
  simp [mapping]

theorem mapping_lookup_cons_ne {k k' v : Text} {rest : List (Text × Text)} (h : k ≠ k') :
    (mapping ((k', v) :: rest)).lookup k = (mapping rest).lookup k := by
  simp only [mapping, List.map_cons, Finmap.dlookup_list_toFinmap]
  exact List.dlookup_cons_ne (β := fun _ => Text) _ ⟨k', v⟩ h

/-- The event that `audit` appends at the instant `ts`. -/
def auditEvent (action : AuditAction) (target callerServiceId : Text)
    (before after : List (Text × Text)) (outcome : Text) (ts : Time) : AuditEvent :=
  { action, target, callerServiceId, outcome, before := mapping before, after := mapping after, ts }

theorem audit_eq_ok {action : AuditAction} {target caller outcome : Text}
    {before after : List (Text × Text)} :
    audit action target caller before after outcome s = .ok u s' ↔
      { reg :=
          { s.reg with
            auditEvents := s.reg.auditEvents ++
              [auditEvent action target caller before after outcome (s.clock 0)] }
        clock := s.tick.clock } = s' := by
  simp [audit, auditEvent, Session.tick]

theorem getAsset_eq_ok {id : Text} {a : Asset} :
    getAsset id s = .ok a s' ↔ s.reg.assets.get id = some a ∧ s = s' := by
  simp [getAsset, and_comm]

theorem getBinding_eq_ok {space name : Text} {b : AliasBinding} :
    getBinding space name s = .ok b s' ↔
      ∃ normSpace normAlias key, normalizeSpace space = .ok normSpace ∧
        normalizeRelativeAlias name = .ok normAlias ∧
        qualifiedAlias normSpace normAlias = .ok key ∧ s.reg.aliases.get key = some b ∧ s = s' := by
  simp only [getBinding, bind_eq_ok, attempt_eq_ok, tables_eq_ok, someOr_eq_ok]
  constructor
  · rintro ⟨normSpace, _, ⟨h1, rfl⟩, normAlias, _, ⟨h2, rfl⟩, key, _, ⟨h3, rfl⟩, _, _,
      ⟨rfl, rfl⟩, h4, h5⟩
    exact ⟨normSpace, normAlias, key, h1, h2, h3, h4, h5⟩
  · rintro ⟨normSpace, normAlias, key, h1, h2, h3, h4, rfl⟩
    exact ⟨normSpace, s, ⟨h1, rfl⟩, normAlias, s, ⟨h2, rfl⟩, key, s, ⟨h3, rfl⟩, s.reg,
      s, ⟨rfl, rfl⟩, h4, rfl⟩

end Primitives

/-! ### Frames -/

/-- What a session may become: a relation that a clock reading respects. -/
class Frame (R : Session → Session → Prop) : Prop extends Closed R where
  tick : ∀ s, R s s.tick

end AssetStore

namespace AssetStore.Lib.Within

open AssetStore

variable {R : Session → Session → Prop}

theorem updateTables {g : Registry → Registry} (h : ∀ s : Session, R s { s with reg := g s.reg }) :
    Within R (updateTables g) := h

variable [Frame R]

theorem utcnow : Within R utcnow := Frame.tick

theorem tables : Within R tables := Closed.refl

theorem getAsset {id : Text} : Within R (getAsset id) := bind tables fun _ => attempt

theorem getBinding {space name : Text} : Within R (getBinding space name) :=
  bind attempt fun _ => bind attempt fun _ => bind attempt fun _ => bind tables fun _ => attempt

theorem partitionQuota {space pid : Text} : Within R (partitionQuota space pid) :=
  bind attempt fun _ => bind attempt fun _ => bind tables fun _ => pure

theorem bucketQuota {space : Text} : Within R (bucketQuota space) :=
  bind attempt fun _ => bind tables fun _ => pure

theorem enforceQuota {env : Env} {space pid : Text} {n : Int} {exclude : Option Text} :
    Within R (enforceQuota env space pid n exclude) :=
  bind tables fun _ => bind partitionQuota fun _ => bind attempt fun _ => bind attempt fun _ =>
    bind attempt fun _ => bind attempt fun _ => bind bucketQuota fun _ => attempt

theorem admitReservation {env : Env} {space pid : Text} : ∀ reserved : Option Int,
    Within R (admitReservation env space pid reserved)
  | none => pure
  | some _ => bind attempt fun _ => enforceQuota

theorem resolveAlias {space name : Text} : Within R (resolveAlias space name) :=
  bind getBinding fun _ => bind attempt fun _ => bind getAsset fun _ => bind utcnow fun _ =>
    bind attempt fun _ => bind attempt fun _ => pure

section Tombstones

variable (drops : ∀ (s : Session) key,
  R s { s with reg := { s.reg with tombstones := s.reg.tombstones.erase key } })
include drops

/-- Availability checks drop at most tombstones. -/
theorem aliasNameIsBlocked {space name : Text} : Within R (aliasNameIsBlocked space name) := by
  refine bind attempt fun key => bind tables fun r => ite pure ?_
  cases r.tombstones.get key with
  | none => exact pure
  | some graceUntil =>
    exact bind utcnow fun now => ite (bind (updateTables fun s => drops s key) fun _ => pure) pure

theorem requireAliasNameAvailable {space name : Text} :
    Within R (requireAliasNameAvailable space name) :=
  bind (aliasNameIsBlocked drops) fun _ => ite (bind attempt fun _ => attempt) pure

theorem requireNamesAvailable {space pid : Text} :
    ∀ names : List Text, Within R (requireNamesAvailable space pid names)
  | [] => pure
  | _ :: rest =>
    bind attempt fun _ => bind (requireAliasNameAvailable drops) fun _ => requireNamesAvailable rest

end Tombstones

end AssetStore.Lib.Within

namespace AssetStore

open Lib

/-- A part of the tables is the same. -/
def Same {γ : Type} (f : Registry → γ) (s s' : Session) : Prop := f s'.reg = f s.reg

instance {γ : Type} {f : Registry → γ} : Frame (Same f) where
  refl _ := rfl
  trans h h' := h'.trans h
  tick _ := rfl

/-- The computation leaves a part of the tables as it is. -/
abbrev Keeps {α γ : Type} (f : Registry → γ) (m : RegM α) : Prop := Within (Same f) m

/-- After a computation that leaves the part alone, with what its result says. -/
theorem Keeps.final_bind {α β γ : Type} {f : Registry → γ} {x : RegM α} {g : α → RegM β}
    {s : Session}
    {P : Session → Prop} (hx : Keeps f x) (same : ∀ s', f s'.reg = f s.reg → P s')
    (hg : ∀ a s', x s = .ok a s' → f s'.reg = f s.reg → P (final (g a s'))) :
    P (final ((x >>= g) s)) :=
  Lib.final_bind (fun _ s' h => same s' (hx.error h)) fun a s' h => hg a s' h (hx.ok h)

/-! ### Alias names -/

/-- `r'` is `r` up to the tombstones. -/
def Registry.UpToTombstones (r r' : Registry) : Prop := { r with tombstones := r'.tombstones } = r'

theorem Registry.UpToTombstones.refl (r : Registry) : r.UpToTombstones r := rfl

theorem Registry.UpToTombstones.trans {r r' r'' : Registry} (h : r.UpToTombstones r')
    (h' : r'.UpToTombstones r'') : r.UpToTombstones r'' := by
  unfold UpToTombstones at *
  rw [← h', ← h]

theorem aliasNameIsBlocked_eq_ok {space name : Text} {b : Bool} {s s' : Session}
    (h : aliasNameIsBlocked space name s = .ok b s') :
    s.reg.UpToTombstones s'.reg ∧
      (b = false → ∀ key, qualifiedAlias space name = .ok key → s.reg.aliases.get key = none) := by
  simp only [aliasNameIsBlocked, bind_eq_ok, attempt_eq_ok, tables_eq_ok] at h
  obtain ⟨key, _, ⟨hkey, rfl⟩, _, _, ⟨rfl, rfl⟩, h⟩ := h
  split at h
  · obtain ⟨rfl, rfl⟩ := pure_eq_ok.mp h
    exact ⟨.refl _, by simp⟩
  · rename_i hfree
    have hnone : ∀ key', qualifiedAlias space name = .ok key' → s.reg.aliases.get key' = none := by
      intro key' hkey'
      obtain rfl : key = key' := by simpa [hkey] using hkey'
      simpa using hfree
    refine ⟨?_, fun _ => hnone⟩
    cases htomb : s.reg.tombstones.get key with
    | none =>
      simp only [htomb, pure_eq_ok] at h
      exact h.2 ▸ .refl _
    | some graceUntil =>
      simp only [htomb, bind_eq_ok, utcnow_eq_ok] at h
      obtain ⟨_, _, ⟨rfl, rfl⟩, h⟩ := h
      split at h
      · simp only [bind_eq_ok, updateTables_eq_ok, pure_eq_ok] at h
        obtain ⟨_, _, rfl, -, rfl⟩ := h
        rfl
      · obtain ⟨-, rfl⟩ := pure_eq_ok.mp h
        exact .refl _

theorem requireAliasNameAvailable_eq_ok {space name : Text} {u : Unit} {s s' : Session}
    (h : requireAliasNameAvailable space name s = .ok u s') :
    s.reg.UpToTombstones s'.reg ∧
      ∀ key, qualifiedAlias space name = .ok key → s.reg.aliases.get key = none := by
  simp only [requireAliasNameAvailable, bind_eq_ok] at h
  obtain ⟨blocked, s1, hb, h⟩ := h
  obtain ⟨hsame, hfree⟩ := aliasNameIsBlocked_eq_ok hb
  cases blocked with
  | true => simp at h
  | false =>
    simp only [Bool.false_eq_true, if_false, pure_eq_ok] at h
    obtain ⟨-, rfl⟩ := h
    exact ⟨hsame, hfree rfl⟩

theorem requireNamesAvailable_eq_ok {space partition : Text} : ∀ {names : List Text} {u : Unit}
    {s s' : Session}, requireNamesAvailable space partition names s = .ok u s' →
    s.reg.UpToTombstones s'.reg ∧
      ∀ name ∈ names, ∀ key, scopedKey space partition name = .ok key →
        s.reg.aliases.get key = none
  | [], _, s, s', h => by
    simp only [requireNamesAvailable, pure_eq_ok] at h
    exact ⟨h.2 ▸ .refl _, by simp⟩
  | name :: rest, _, s, s', h => by
    simp only [requireNamesAvailable, bind_eq_ok, attempt_eq_ok] at h
    obtain ⟨scopedName, _, ⟨hscoped, rfl⟩, _, s1, hname, hrest⟩ := h
    obtain ⟨hsame, hfree⟩ := requireAliasNameAvailable_eq_ok hname
    obtain ⟨hsame', hfree'⟩ := requireNamesAvailable_eq_ok hrest
    refine ⟨hsame.trans hsame', fun other hother key hkey => ?_⟩
    rcases List.mem_cons.mp hother with rfl | hother
    · simp only [scopedKey, hscoped, except_bind_eq_ok, Except.ok.injEq, exists_eq_left'] at hkey
      exact hfree key hkey
    · have := hfree' other hother key hkey
      rwa [← hsame] at this

end AssetStore
