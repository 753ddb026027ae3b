import AssetStore.Guard
import AssetStore.Registry.Upload

/-! What the guard's calls do when they succeed with no other call beside them. -/

namespace AssetStore

open Lib

section Alone

variable {env : Env} {g g' : GuardState}

/-- The guard's view of a registry session. -/
abbrev GuardState.session (g : GuardState) : Session := ⟨g.reg, g.clock⟩

theorem liftRegistry_eq_ok {α : Type} {m : RegM α} {a : α} :
    liftRegistry m g = .ok a g' ↔
      ∃ s, m g.session = .ok a s ∧ g' = { g with reg := s.reg, clock := s.clock } := by
  unfold liftRegistry
  cases h : m g.session with
  | ok b s =>
    simp only [EStateM.Result.ok.injEq]
    constructor
    · rintro ⟨rfl, rfl⟩
      exact ⟨s, ⟨rfl, rfl⟩, rfl⟩
    · rintro ⟨_, ⟨rfl, rfl⟩, rfl⟩
      exact ⟨rfl, rfl⟩
  | error e s => simp

theorem ledgerStep_eq_ok {step : Ledger → Time → Except Err Unit × Ledger} {u : Unit} :
    ledgerStep step g = .ok u g' ↔ (step g.ledger (g.clock 0)).1 = .ok () ∧
      g' = { g with ledger := (step g.ledger (g.clock 0)).2,
                    clock := fun n => g.clock (n + 1) } := by
  unfold ledgerStep
  cases h : (step g.ledger (g.clock 0)).1 with
  | ok v => simp [h, eq_comm]
  | error e => simp [h]

theorem final_liftRegistry {α : Type} {m : RegM α} :
    final (liftRegistry m g) =
      { g with reg := (final (m g.session)).reg, clock := (final (m g.session)).clock } := by
  unfold liftRegistry
  cases h : m g.session <;> rfl

theorem final_ledgerStep {step : Ledger → Time → Except Err Unit × Ledger} :
    final (ledgerStep step g) =
      { g with ledger := (step g.ledger (g.clock 0)).2, clock := fun n => g.clock (n + 1) } := by
  unfold ledgerStep
  cases h : (step g.ledger (g.clock 0)).1 <;> simp [h]

@[simp] theorem alone_pure {α : Type} {a : α} : alone (pure a) = pure a := rfl

@[simp] theorem alone_bind {α β : Type} {p : GuardProg α} {f : α → GuardProg β} :
    alone (p >>= f) = alone p >>= fun a => alone (f a) := Prog.run_bind

@[simp] theorem alone_perform {α : Type} {c : Cmd α} : alone (.perform c) = Cmd.sem α c :=
  Prog.run_perform

@[simp] theorem alone_registry {α : Type} {m : RegM α} : alone (registry m) = liftRegistry m :=
  Prog.run_perform

@[simp] theorem alone_check {α : Type} {x : Except Err α} : alone (check x) = attempt x := rfl

@[simp] theorem alone_cleaningUp_eq_ok {α : Type} {p : GuardProg α} {cleanup : GuardProg Unit}
    {a : α} : alone (p.cleaningUp cleanup) g = .ok a g' ↔ alone p g = .ok a g' :=
  Prog.run_cleaningUp_eq_ok

theorem withAssetLock_eq_ok {α : Type} {id : Text} {body : Asset → GuardProg (RegM α)} {a : α} :
    alone (withAssetLock id body) g = .ok a g' ↔
      ∃ asset last g1, g.reg.assets.get id = some asset ∧ alone (body asset) g = .ok last g1 ∧
        liftRegistry last g1 = .ok a g' := by
  simp only [withAssetLock, alone_bind, bind_eq_ok, alone_perform, Cmd.sem, liftRegistry_eq_ok,
    getAsset_eq_ok, alone_cleaningUp_eq_ok]
  constructor
  · rintro ⟨asset, _, ⟨_, ⟨hget, rfl⟩, rfl⟩, last, g1, hbody, hlast⟩
    exact ⟨asset, last, g1, hget, hbody, hlast⟩
  · rintro ⟨asset, last, g1, hget, hbody, hlast⟩
    exact ⟨asset, g, ⟨_, ⟨hget, rfl⟩, rfl⟩, last, g1, hbody, hlast⟩

theorem authorize_eq_ok {cap : Capability} {op : Operation} {aliasName : Text}
    {parsed : ParsedAlias}
    (h : alone (authorize cap op aliasName) g = .ok parsed g') :
    parseAlias aliasName = .ok parsed ∧ cap.allows op parsed.qualified (g.clock 0) = true ∧
      g'.reg = g.reg ∧ (g'.clock = fun k => g.clock (k + 2)) ∧ g'.store = g.store := by
  simp only [authorize, alone_bind, bind_eq_ok, alone_check, attempt_eq_ok, alone_registry,
    liftRegistry_eq_ok, utcnow_eq_ok, alone_perform, Cmd.sem, alone_pure, pure_eq_ok,
    Capability.require, raiseIf_eq_ok] at h
  obtain ⟨_, _, ⟨hparse, rfl⟩, now, _, ⟨s, ⟨rfl, rfl⟩, rfl⟩, _, _, ⟨hallow, rfl⟩, _, g2,
    hunused, _, _,
    ⟨_, rfl⟩, rfl, rfl⟩ := h
  obtain ⟨_, rfl⟩ := ledgerStep_eq_ok.mp hunused
  exact ⟨hparse, by simpa using hallow, rfl, rfl, rfl⟩

/-- A successful write: the reservation, the bytes, the commit. -/
theorem writeObject_eq_ok {newId aliasName : Text} {cap : Capability} {data : List UInt8}
    {opts : WriteOptions} {a : Asset}
    (h : alone (writeObject env newId cap aliasName data opts) g = .ok a g') :
    ∃ (parsed : ParsedAlias) (pending : Asset) (s1 s2 : Session) (g1 : GuardState),
      parseAlias aliasName = .ok parsed ∧
      cap.allows .write parsed.qualified (g.clock 0) = true ∧ g1.reg = g.reg ∧
      (g1.clock = fun k => g.clock (k + 2)) ∧
      reserveAsset env newId
        { space := parsed.space, partitionId := parsed.partitionId
          aliases := [(parsed.aliasInPartition, opts.mutable)]
          ownerServiceId := cap.callerServiceId, mime := opts.mime, ttlSeconds := opts.ttlSeconds
          reservedBytes := some data.length } g1.session = .ok pending s1 ∧
      commitAsset env pending.assetId (data.length : Int) (computeChecksum env data)
        cap.callerServiceId opts.mime opts.expectedChecksum s1 = .ok a s2 ∧
      g'.reg = s2.reg := by
  simp only [writeObject, uploadLocked, alone_bind, bind_eq_ok, alone_check, attempt_eq_ok,
    alone_perform, Cmd.sem, liftRegistry_eq_ok, alone_cleaningUp_eq_ok, withAssetLock_eq_ok,
    alone_pure, pure_eq_ok] at h
  obtain ⟨parsed, g1, hauth, pending, _, ⟨s1, hreserve, rfl⟩, location, _, ⟨_, rfl⟩, _, g4,
    ⟨_, last, g3, _, ⟨_, _, ⟨_, rfl⟩, stat, _, _, rfl, rfl⟩, s2, hcommit, rfl⟩, _, g5, huse, rfl,
    rfl⟩ := h
  obtain ⟨hparse, hallow, hreg, hclock, -⟩ := authorize_eq_ok hauth
  obtain ⟨_, rfl⟩ := ledgerStep_eq_ok.mp huse
  exact ⟨parsed, pending, s1, s2, g1, hparse, hallow, hreg, hclock, hreserve, hcommit, rfl⟩

end Alone

end AssetStore
