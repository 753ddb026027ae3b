import AssetStore.Guard
import AssetStore.Registry.Spec

/-! Threads whose `asset_lock` blocks are transactions. A block holds the lock of its asset from its
first statement to its last, which commits its registry changes; a block that does not complete
changes nothing. The object store has no transactions. -/

namespace AssetStore

open Lib

variable {ι β : Type} [DecidableEq ι]

/-- What the threads share, with the thread that has locked each asset. -/
structure Shared (ι : Type) extends GuardState where
  locks : Dict Text ι

/-- Thread `i` may change the assets: those that it changes are not locked by another thread. -/
def Shared.Permits (s : Shared ι) (i : ι) (assets : Dict Text Asset) : Prop :=
  ∀ id ∈ s.locks.keys, s.locks.get id = some i ∨ assets.get id = s.reg.assets.get id

instance (s : Shared ι) (i : ι) (assets : Dict Text Asset) : Decidable (s.Permits i assets) := by
  unfold Shared.Permits
  infer_instance

/-- Registry work of thread `i` in a transaction: it is committed when it returns and undone when it
raises, and it waits for the locks of the assets that it changes. -/
def transact (i : ι) (m : RegM β) (s : Shared ι) : Option (Except Err β × Shared ι) :=
  match m ⟨s.reg, s.clock⟩ with
  | .ok b t =>
    if s.Permits i t.reg.assets then some
      (.ok b, { s with reg := t.reg, clock := t.clock }) else none
  | .error e t => some (.error e, { s with clock := t.clock })

/-- A statement that needs no lock. -/
def immediately (m : GuardM β) (s : Shared ι) : Option (Except Err β × Shared ι) :=
  match m s.toGuardState with
  | .ok b g => some (.ok b, { s with toGuardState := g })
  | .error e g => some (.error e, { s with toGuardState := g })

/-- Thread `i` gives up the lock, if it holds it. -/
def Shared.release (s : Shared ι) (i : ι) (id : Text) : Shared ι :=
  if s.locks.get id = some i then { s with locks := s.locks.erase id } else s

/-- A statement of thread `i`; it is blocked while it waits for a lock. -/
def Cmd.exec (i : ι) : (β : Type) → Cmd β → Shared ι → Option (Except Err β × Shared ι)
  | _, .reserveAsset env newId req, s => transact i (AssetStore.reserveAsset env newId req) s
  | _, .registry m, s => transact i m s
  | _, .enterLock id, s =>
    match s.locks.get id, transact i (getAsset id) s with
    | none, some (.ok a, s') => some (.ok a, { s' with locks := s'.locks.set id i })
    | none, out => out
    | some _, _ => none
  | _, .closeLock id m, s =>
    match transact i m s with
    | some (.ok b, s') => some (.ok b, s'.release i id)
    | out => out
  | _, .breakLock id, s => some (.ok (), s.release i id)
  | β, c, s => immediately (Cmd.sem β c) s

/-- Threads that interleave at every statement, where locked blocks are transactions. A thread that
is gone has lost its locks. -/
def locking (ι : Type) [DecidableEq ι] : Machine Cmd Err (Shared ι) ι where
  exec := fun i c s => Cmd.exec i _ c s
  leave := fun i s => { s with locks := s.locks.filter fun j => j ≠ i }

section Inversion

variable {i j : ι} {s s' : Shared ι} {m : RegM β} {r : Except Err β} {id : Text}

/-- What a transaction does. -/
theorem transact_cases (h : transact i m s = some (r, s')) :
    (∃ b t, m ⟨s.reg, s.clock⟩ = .ok b t ∧ r = .ok b ∧ s.Permits i t.reg.assets ∧
      s' = { s with reg := t.reg, clock := t.clock }) ∨
      ∃ e clock, r = .error e ∧ s' = { s with clock } := by
  unfold transact at h
  cases hm : m ⟨s.reg, s.clock⟩ with
  | ok b t =>
    simp only [hm] at h
    split at h
    · obtain ⟨rfl, rfl⟩ := Prod.mk.inj (Option.some.inj h)
      exact .inl ⟨b, t, rfl, rfl, ‹_›, rfl⟩
    · cases h
  | error e t =>
    simp only [hm] at h
    obtain ⟨rfl, rfl⟩ := Prod.mk.inj (Option.some.inj h)
    exact .inr ⟨e, t.clock, rfl, rfl⟩

/-- What the first statement of a block does. -/
theorem enterLock_cases {r : Except Err Asset}
    (h : (locking ι).exec i (.enterLock id) s = some (r, s')) :
    (∃ a, s.locks.get id = none ∧ s.reg.assets.get id = some a ∧ r = .ok a ∧
      s' = { s with locks := s.locks.set id i }) ∨
      ∃ e clock, r = .error e ∧ s' = { s with clock } := by
  simp only [locking, Cmd.exec] at h
  cases hlock : s.locks.get id with
  | some j => simp [hlock] at h
  | none =>
    cases hget : transact i (getAsset id) s with
    | none => simp [hlock, hget] at h
    | some out =>
      obtain ⟨r1, s1⟩ := out
      rcases transact_cases hget with ⟨a, t, hm, rfl, -, rfl⟩ | ⟨e, clock, rfl, rfl⟩
      · obtain ⟨hrow, rfl⟩ := getAsset_eq_ok.mp hm
        simp only [hlock, hget, Option.some.injEq, Prod.mk.injEq] at h
        obtain ⟨rfl, rfl⟩ := h
        exact .inl ⟨a, rfl, hrow, rfl, rfl⟩
      · simp only [hlock, hget, Option.some.injEq, Prod.mk.injEq] at h
        obtain ⟨rfl, rfl⟩ := h
        exact .inr ⟨e, clock, rfl, rfl⟩

/-- What the last statement of a block does. -/
theorem closeLock_cases (h : (locking ι).exec i (.closeLock id m) s = some (r, s')) :
    (∃ b t, m ⟨s.reg, s.clock⟩ = .ok b t ∧ r = .ok b ∧ s.Permits i t.reg.assets ∧
      s' = Shared.release { s with reg := t.reg, clock := t.clock } i id) ∨
      ∃ e clock, r = .error e ∧ s' = { s with clock } := by
  simp only [locking, Cmd.exec] at h
  cases hm : transact i m s with
  | none => simp [hm] at h
  | some out =>
    obtain ⟨r1, s1⟩ := out
    rcases transact_cases hm with ⟨b, t, hrun, rfl, hpermits, rfl⟩ | ⟨e, clock, rfl, rfl⟩
    · simp only [hm, Option.some.injEq, Prod.mk.injEq] at h
      obtain ⟨rfl, rfl⟩ := h
      exact .inl ⟨b, t, hrun, rfl, hpermits, rfl⟩
    · simp only [hm, Option.some.injEq, Prod.mk.injEq] at h
      obtain ⟨rfl, rfl⟩ := h
      exact .inr ⟨e, clock, rfl, rfl⟩

omit [DecidableEq ι] in
theorem immediately_cases {m : GuardM β} (h : immediately m s = some (r, s')) :
    s' = { s with toGuardState := final (m s.toGuardState) } := by
  unfold immediately at h
  cases hm : m s.toGuardState with
  | ok b g =>
    simp only [hm, Option.some.injEq, Prod.mk.injEq] at h
    exact h.2.symm
  | error e g =>
    simp only [hm, Option.some.injEq, Prod.mk.injEq] at h
    exact h.2.symm

@[simp] theorem release_toGuardState : (s.release i id).toGuardState = s.toGuardState := by
  unfold Shared.release
  split <;> rfl

/-- The locks of the other threads are kept. -/
theorem release_locks {key : Text} (h : s.locks.get key = some j) (hj : j ≠ i) :
    (s.release i id).locks.get key = some j := by
  unfold Shared.release
  split
  · rename_i hheld
    have hne : key ≠ id := by
      rintro rfl
      exact hj (Option.some.inj (h.symm.trans hheld))
    simpa [Dict.get_erase_ne _ hne] using h
  · exact h

end Inversion

end AssetStore
