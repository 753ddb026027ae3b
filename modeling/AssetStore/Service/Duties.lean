import AssetStore.Guard.Buckets
import AssetStore.Guard.Bytes
import AssetStore.Guard.Spec
import AssetStore.Service
import AssetStore.Service.Isolation

/-! The contract of the service with its requests: each statement of a request is a change that the
access monitor permits, or none, and tells it something that was true. -/

namespace AssetStore

open Lib Relation

variable {ι : Type} [DecidableEq ι] {α β : Type}

/-- What the threads share, with the published grants. -/
def Shared.vault (s : Shared ι) (grants : Dict Text Capability) : Vault :=
  { reg := s.reg, store := s.store, grants }

/-- What the monitor guards in a process. -/
def Service.vault (s : Service ι) : Vault := s.shared.vault s.bearers.capabilities

section Contract

variable (present used : Text → Prop) (env : Env) (grace : Int) (seen : Vault → Prop)

/-- It was true of something that was seen before. -/
def Once (P : Vault → Prop) (v : Vault) : Prop :=
  ∃ w : Vault, seen w ∧ w.Sound present used env grace ∧ w.Leads present env v ∧ P w

/-- Whenever the registry work returns, the monitor permits what it has done. -/
def Works (m : RegM β) (v : Vault) : Prop :=
  ∀ clock b t, m ⟨v.reg, clock⟩ = .ok b t → v.Leads present env { v with reg := t.reg }

/-- An asset of a service that is present has its object here. -/
def Vault.Mine (v : Vault) (location : ObjectStoreLocation) : Prop :=
  ∃ id a, v.reg.assets.get id = some a ∧ a.location = location ∧ present a.ownerServiceId

/-- Some stored asset has its object here. -/
def Vault.Holds (v : Vault) (location : ObjectStoreLocation) : Prop :=
  ∃ id a, v.reg.assets.get id = some a ∧ a.location = location

/-- The statements of the guard that the contract allows. -/
def Cmd.Permitted (v : Vault) : {β : Type} → Cmd β → Prop
  | _, .registry m => Works present env m v
  | _, .closeLock _ m => Works present env m v
  | _, .reserveAsset env' newId req => env' = env ∧ Licensed present v.reg (.reserveAsset newId req)
  | _, .putObject _ location _ => v.Mine present location
  | _, .deleteObject location => v.Mine present location
  | _, .getObject location => v.Holds location
  | _, _ => True

/-- What is true when a statement of the guard has returned. -/
def Cmd.Told (v : Vault) : {β : Type} → Cmd β → β → Prop
  | _, .registry m, b =>
    Once present used env grace seen (fun w => ∃ clock t, m ⟨w.reg, clock⟩ = .ok b t) v
  | _, .closeLock _ m, b =>
    Once present used env grace seen (fun w => ∃ clock t, m ⟨w.reg, clock⟩ = .ok b t) v
  | _, .reserveAsset _ newId req, a =>
    Once present used env grace seen (fun w => w.reg.assets.get newId = some a) v ∧
      a.assetId = newId ∧
      a.ownerServiceId = req.ownerServiceId ∧ normalizeSpace req.space = .ok a.space
  | _, .enterLock id, a =>
    Once present used env grace seen (fun w => w.reg.assets.get id = some a) v
  | _, .getObject location, data =>
    Once present used env grace seen (fun w => w.store.get location = some data ∧
      w.Holds location) v
  | _, _, _ => True

/-- The contract of the service. -/
def duties (ι : Type) : Contract ServiceCmd (Service ι) where
  inv s := seen s.vault ∧ s.vault.Sound present used env grace
  later s s' := s.vault.Leads present env s'.vault
  allows := fun c s =>
    match c with
    | .guard c => c.Permitted present env s.vault
    | .getCapability token => used token
    | .issueCapability cap onGrant =>
      present cap.callerServiceId ∧ Grantable cap ∧ Works present env onGrant s.vault
    | _ => True
  promises := fun c b s =>
    match c, b with
    | .guard c, b => c.Told present used env grace seen s.vault b
    | .getCapability token, found =>
      ∀ cap, found = some cap →
        Once present used env grace seen (fun w => w.grants.get token = some cap) s.vault
    | .countCapabilities, n =>
      Once present used env grace seen (fun w => w.grants.keys.length = n) s.vault
    | _, _ => True
  refl _ := ReflTransGen.refl
  trans h h' := ReflTransGen.trans h h'

/-- The id of a reservation is a UUID that is not in use. -/
def ServiceNewId {β : Type} : ι → ServiceCmd β → Service ι → Prop
  | i, .guard c, s => NewId i c s.shared
  | _, _, _ => True

end Contract

variable {present used : Text → Prop} {env : Env} {grace : Int} {seen : Vault → Prop} {v v' : Vault}

namespace Once

variable {P : Vault → Prop}

theorem now (hseen : seen v) (sound : v.Sound present used env grace) (h : P v) :
    Once present used env grace seen P v := ⟨v, hseen, sound, .refl, h⟩

theorem later (h : Once present used env grace seen P v) (hleads : v.Leads present env v') :
    Once present used env grace seen P v' := by
  obtain ⟨w, hseen, hsound, hw, hP⟩ := h
  exact ⟨w, hseen, hsound, ReflTransGen.trans hw hleads, hP⟩

end Once

/-- A call of the registry. -/
theorem Works.call {m : RegM β} {op : Op} (licensed : Licensed present v.reg op)
    (named : op.NewlyNamed v.reg) (run : ∀ s b t, m s = .ok b t →
      ∃ reply, op.run env s = .ok reply t) :
    Works present env m v := by
  intro clock b t hm
  obtain ⟨reply, hrun⟩ := run _ b t hm
  exact .single (.call licensed named hrun)

/-- A reading of the registry. -/
theorem Works.read {m : RegM β} (keeps : Keeps (fun r => r) m) : Works present env m v := by
  intro clock b t hm
  have hreg : t.reg = v.reg := keeps.ok hm
  rw [hreg]
  exact .refl

/-! ### Every statement keeps to the contract -/

section Statements

variable {i : ι} {sh sh' : Shared ι} {grants : Dict Text Capability} {r : Except Err β}

omit [DecidableEq ι] in
/-- Nothing is changed that the monitor guards. -/
theorem leads_of_same (reg : sh'.reg = sh.reg) (store : sh'.store = sh.store) :
    (sh.vault grants).Leads present env (sh'.vault grants) := by
  rw [Shared.vault, Shared.vault, reg, store]
  exact .refl

/-- Registry work in a transaction. -/
theorem transact_upholds {m : RegM β} (before : seen (sh.vault grants))
    (sound : (sh.vault grants).Sound present used env grace)
    (works : Works present env m (sh.vault grants)) (h : transact i m sh = some (r, sh')) :
    (sh.vault grants).Leads present env (sh'.vault grants) ∧ ∀ b, r = .ok b →
      Once present used env grace seen (fun w => ∃ clock t, m ⟨w.reg, clock⟩ = .ok b t)
        (sh'.vault grants) := by
  rcases transact_cases h with ⟨b, t, hm, rfl, -, rfl⟩ | ⟨e, clock, rfl, rfl⟩
  · have hleads := works _ b t hm
    refine ⟨hleads, fun b' hb => ?_⟩
    rw [← Except.ok.inj hb]
    exact (Once.now before sound ⟨_, t, hm⟩).later hleads
  · exact ⟨.refl, fun b hb => by cases hb⟩

/-- A statement that changes neither store. -/
theorem immediate_upholds {c : Cmd β}
    (exec : ∀ s : Shared ι, (locking ι).exec i c s = immediately (Cmd.sem β c) s)
    (reg : ∀ g, (final (Cmd.sem β c g)).reg = g.reg)
    (store : ∀ g, (final (Cmd.sem β c g)).store = g.store)
    (h : (locking ι).exec i c sh = some (r, sh')) :
    (sh.vault grants).Leads present env (sh'.vault grants) := by
  rw [exec] at h
  obtain rfl := immediately_cases h
  exact leads_of_same (reg _) (store _)

/-- A step of the ledger. -/
theorem ledger_upholds {c : Cmd Unit} {step : Ledger → Time → Except Err Unit × Ledger}
    {r : Except Err Unit}
    (exec : ∀ s : Shared ι, (locking ι).exec i c s = immediately (Cmd.sem Unit c) s)
    (sem : Cmd.sem Unit c = ledgerStep step) (h : (locking ι).exec i c sh = some (r, sh')) :
    (sh.vault grants).Leads present env (sh'.vault grants) :=
  immediate_upholds exec (fun g => by rw [sem, final_ledgerStep])
    (fun g => by rw [sem, final_ledgerStep]) h

theorem getObject_upholds {location : ObjectStoreLocation} {r : Except Err (List UInt8)}
    (h : (locking ι).exec i (.getObject location) sh = some (r, sh')) :
    sh'.toGuardState = sh.toGuardState ∧ ∀ data, r = .ok data →
      sh.store.get location = some data := by
  simp only [locking, Cmd.exec, immediately, Cmd.sem, getStored] at h
  cases hget : sh.store.get location with
  | none =>
    simp only [hget, Option.some.injEq, Prod.mk.injEq] at h
    obtain ⟨rfl, rfl⟩ := h
    exact ⟨rfl, fun _ he => by cases he⟩
  | some data =>
    simp only [hget, Option.some.injEq, Prod.mk.injEq] at h
    obtain ⟨rfl, rfl⟩ := h
    exact ⟨rfl, fun _ he => congrArg some (Except.ok.inj he)⟩

/-- Every statement of the guard keeps to the contract. -/
theorem guard_upholds {c : Cmd β} (before : seen (sh.vault grants))
    (sound : (sh.vault grants).Sound present used env grace) (new : NewId i c sh)
    (permitted : c.Permitted present env (sh.vault grants))
    (h : (locking ι).exec i c sh = some (r, sh'))
    (after : seen (sh'.vault grants)) :
    (sh.vault grants).Leads present env (sh'.vault grants) ∧
      ∀ b, r = .ok b → c.Told present used env grace seen (sh'.vault grants) b := by
  cases c with
  | assertUnused => exact ⟨ledger_upholds (fun _ => rfl) (by rw [Cmd.sem]) h, fun _ _ => trivial⟩
  | recordSuccessfulUse =>
    exact ⟨ledger_upholds (fun _ => rfl) (by rw [Cmd.sem]) h, fun _ _ => trivial⟩
  | pruneExpired => exact ⟨ledger_upholds (fun _ => rfl) (by rw [Cmd.sem]) h, fun _ _ => trivial⟩
  | reserveAsset env' newId req =>
    obtain ⟨rfl, licensed⟩ := permitted
    rcases transact_cases h with ⟨a, t, hm, rfl, -, rfl⟩ | ⟨e, clock, rfl, rfl⟩
    · have hrun : (Op.reserveAsset newId req).run env' ⟨sh.reg, sh.clock⟩ = .ok (.asset a) t := by
        simp only [Op.run, bind_of_ok hm]
        rfl
      have hstep : (sh.vault grants).Step present env' _ := .call licensed new hrun
      obtain ⟨hassets, hid, -, howner, hspace, -⟩ := reserveAsset_stores hm
      refine ⟨.single hstep, fun b hb => ?_⟩
      obtain rfl := Except.ok.inj hb
      refine ⟨Once.now after (sound.step hstep) ?_, hid, howner, hspace⟩
      change t.reg.assets.get newId = some a
      rw [hassets, Dict.get_set_self]
    · exact ⟨.refl, fun b hb => by cases hb⟩
  | registry m => exact transact_upholds before sound permitted h
  | enterLock id =>
    rcases enterLock_cases h with ⟨a, -, hget, rfl, rfl⟩ | ⟨e, clock, rfl, rfl⟩
    · refine ⟨.refl, fun b hb => ?_⟩
      obtain rfl := Except.ok.inj hb
      exact Once.now before sound hget
    · exact ⟨.refl, fun b hb => by cases hb⟩
  | closeLock id m =>
    rcases closeLock_cases h with ⟨b, t, hm, rfl, -, rfl⟩ | ⟨e, clock, rfl, rfl⟩
    · have hleads := permitted _ b t hm
      have hsame : (Shared.release { sh with reg := t.reg, clock := t.clock } i id).vault grants =
          { sh.vault grants with reg := t.reg } := by
        rw [Shared.vault, release_toGuardState]
        rfl
      rw [hsame]
      refine ⟨hleads, fun b' hb => ?_⟩
      rw [← Except.ok.inj hb]
      exact (Once.now before sound ⟨_, t, hm⟩).later hleads
    · exact ⟨.refl, fun b hb => by cases hb⟩
  | breakLock id =>
    obtain ⟨rfl, rfl⟩ := Prod.mk.inj (Option.some.inj h)
    exact ⟨leads_of_same (by simp) (by simp), fun _ _ => trivial⟩
  | putObject env' location data =>
    obtain ⟨id, a, hget, rfl, owner⟩ := permitted
    obtain ⟨rfl, rfl⟩ := Prod.mk.inj (Option.some.inj h)
    exact ⟨.single (.put hget owner), fun _ _ => trivial⟩
  | getObject location =>
    obtain ⟨hsame, hstored⟩ := getObject_upholds h
    have hleads : (sh.vault grants).Leads present env (sh'.vault grants) :=
      leads_of_same (congrArg GuardState.reg hsame) (congrArg GuardState.store hsame)
    exact ⟨hleads, fun data hdata => (Once.now before sound
      ⟨hstored data hdata, permitted⟩).later hleads⟩
  | statObject env' location =>
    exact ⟨immediate_upholds (fun _ => rfl) (fun _ => by rw [Cmd.sem]; rfl)
      (fun _ => by rw [Cmd.sem]; rfl) h, fun _ _ => trivial⟩
  | deleteObject location =>
    obtain ⟨id, a, hget, rfl, owner⟩ := permitted
    obtain ⟨rfl, rfl⟩ := Prod.mk.inj (Option.some.inj h)
    exact ⟨.single (.remove hget owner), fun _ _ => trivial⟩

variable {s s' : Service ι}

omit [DecidableEq ι] in
/-- A lookup of the bearer store retires what has expired. -/
theorem getCapability_upholds {token : Text} {r : Except Err (Option Capability)}
    (h : s.callBearers (fun now => CapabilityStore.get now token) = (r, s')) :
    s.vault.Leads present env s'.vault ∧
      ∀ found cap, r = .ok found → found = some cap → s'.vault.grants.get token = some cap := by
  obtain ⟨rfl, rfl⟩ := Prod.mk.inj h
  refine ⟨.single .retire, fun found cap hfound hcap => ?_⟩
  exact (Except.ok.inj hfound).trans hcap

omit [DecidableEq ι] in
theorem countCapabilities_upholds {r : Except Err Nat}
    (h : s.callBearers CapabilityStore.len = (r, s')) :
    s.vault.Leads present env s'.vault ∧ ∀ n, r = .ok n → s'.vault.grants.keys.length = n := by
  obtain ⟨rfl, rfl⟩ := Prod.mk.inj h
  exact ⟨.single .retire, fun n hn => Except.ok.inj hn⟩

omit [DecidableEq ι] in
/-- What a grant leaves: what has expired is retired, and if the audit returns the grant is
published. -/
theorem issue_leaves (now : Time) (bearers : CapabilityStore) (sh : Shared ι) (cap : Capability)
    (onGrant : RegM Unit) :
    (∃ clock, final (CapabilityStore.issue now cap (auditGrant onGrant) (bearers, sh)) =
        (bearers.prune now, { sh with clock })) ∨
      ∃ t, onGrant ⟨sh.reg, sh.clock⟩ = .ok () t ∧
        final (CapabilityStore.issue now cap (auditGrant onGrant) (bearers, sh)) =
          ((bearers.prune now).publish cap, { sh with reg := t.reg, clock := t.clock }) := by
  rw [issue_eq]
  split
  · exact .inl ⟨sh.clock, rfl⟩
  · split
    · exact .inl ⟨sh.clock, rfl⟩
    · unfold auditGrant
      cases hgrant : onGrant ⟨sh.reg, sh.clock⟩ with
      | ok u t => exact .inr ⟨t, rfl, rfl⟩
      | error e t => exact .inl ⟨t.clock, rfl⟩

omit [DecidableEq ι] in
theorem callBearers_leaves {call : Time → StoreM (Shared ι) β} {r : Except Err β}
    (h : s.callBearers call = (r, s')) :
    final (call (s.shared.clock 0) (s.bearers,
      { s.shared with clock := fun n => s.shared.clock (n + 1) })) =
      (s'.bearers, s'.shared) := by
  unfold Service.callBearers at h
  split at h
  · rename_i hcall
    obtain ⟨-, rfl⟩ := Prod.mk.inj h
    rw [hcall, final_ok]
  · rename_i hcall
    obtain ⟨-, rfl⟩ := Prod.mk.inj h
    rw [hcall, final_error]

omit [DecidableEq ι] in
/-- A grant is audited and then published, or not published at all. -/
theorem issueCapability_upholds {cap : Capability} {onGrant : RegM Unit} {r : Except Err Unit}
    (caller : present cap.callerServiceId) (grantable : Grantable cap)
    (works : Works present env onGrant s.vault)
    (h : s.callBearers (fun now => CapabilityStore.issue now cap (auditGrant onGrant)) = (r, s')) :
    s.vault.Leads present env s'.vault := by
  have hend := callBearers_leaves h
  rcases issue_leaves (s.shared.clock 0) s.bearers
    { s.shared with clock := fun n => s.shared.clock (n + 1) }
    cap onGrant with ⟨clock, hleft⟩ | ⟨t, hgrant, hleft⟩
  · obtain ⟨hbearers, hshared⟩ := Prod.mk.inj (hleft.symm.trans hend)
    have hvault : s'.vault = { s.vault with
      grants := pruneCapabilities (s.shared.clock 0) s.vault.grants } := by
      rw [Service.vault, ← hbearers, ← hshared]
      rfl
    rw [hvault]
    exact .single .retire
  · obtain ⟨hbearers, hshared⟩ := Prod.mk.inj (hleft.symm.trans hend)
    have hvault : s'.vault =
        { reg := t.reg, store := s.vault.store
          grants := (pruneCapabilities (s.shared.clock 0) s.vault.grants).set
            cap.capabilityId cap } := by
      rw [Service.vault, ← hbearers, ← hshared]
      rfl
    have hworks : s.vault.Leads present env { s.vault with reg := t.reg } := works _ () t hgrant
    rw [hvault]
    exact (hworks.tail .retire).tail (.grant caller grantable)

/-- Every statement of a request keeps to the contract. -/
theorem service_upholds :
    (serving ι).Upholds (fun i c s => ServiceNewId i c s) (fun s => seen s.vault)
    (duties present used env grace seen ι) where
  exec := by
    intro i β c s s' r ⟨before, sound⟩ new allowed h after
    suffices s.vault.Leads present env s'.vault ∧ ∀ b, r = .ok b →
        (duties present used env grace seen ι).promises c b s'
          from ⟨⟨after, this.1.sound sound⟩, this⟩
    cases c with
    | guard c =>
      obtain ⟨out, hexec, heq⟩ := Option.map_eq_some_iff.mp h
      obtain ⟨rfl, rfl⟩ := Prod.mk.inj heq
      exact guard_upholds before sound new allowed hexec after
    | getCapability token =>
      obtain ⟨hleads, hfound⟩ := getCapability_upholds (Option.some.inj h)
      exact ⟨hleads, fun found hr cap hcap =>
        Once.now after (hleads.sound sound) (hfound found cap hr hcap)⟩
    | countCapabilities =>
      obtain ⟨hleads, hcount⟩ := countCapabilities_upholds (Option.some.inj h)
      exact ⟨hleads, fun n hr => Once.now after (hleads.sound sound) (hcount n hr)⟩
    | issueCapability cap onGrant =>
      obtain ⟨caller, grantable, works⟩ := allowed
      exact ⟨issueCapability_upholds caller grantable works (Option.some.inj h), fun _ _ => trivial⟩
    | admitIssuance identity =>
      obtain ⟨-, rfl⟩ := Prod.mk.inj (Option.some.inj h)
      exact ⟨.refl, fun _ _ => trivial⟩
  leave i s := fun ⟨before, sound⟩ _ => ⟨⟨before, sound⟩, .refl⟩

end Statements

end AssetStore
