import AssetStore.Api
import AssetStore.Guard.Confinement
import AssetStore.Guard.Intact
import AssetStore.Guard.Locking
import AssetStore.Lib.Discipline
import AssetStore.Lifecycle.Spec

/-! Uploads, commits, sweeps and registry calls in any interleaving, with exceptions and crashes
between any two statements: live assets keep their bytes, and no bytes are lost to the sweeps. -/

namespace AssetStore

open Lib

variable {ι : Type} {env : Env} {grace : Int} {i j : ι} {s s' : Shared ι} {id : Text}
  {a : Asset}

/-! ### The discipline -/

/-- What thread `i` may rely on while others work: only calls are made, and the assets that it has
locked stay as they are, with their objects. -/
structure Relies (env : Env) (i : ι) (s s' : Shared ι) : Prop where
  leads : Leads env s.reg s'.reg
  locked : ∀ id, s.locks.get id = some i → s'.locks.get id = some i
  row : ∀ id a, s.locks.get id = some i → s.reg.assets.get id = some a →
    s'.reg.assets.get id = some a ∧ s'.store.get a.location = s.store.get a.location

theorem Relies.of_same (reg : s'.reg = s.reg) (store : s'.store = s.store)
    (locked : ∀ id, s.locks.get id = some i → s'.locks.get id = some i) : Relies env i s s' where
  leads := reg ▸ .refl _
  locked := locked
  row id a _ get := ⟨reg ▸ get, by rw [store]⟩

theorem Relies.trans {s'' : Shared ι} (h : Relies env i s s') (h' : Relies env i s' s'') :
    Relies env i s s'' where
  leads := Trans.trans h.leads h'.leads
  locked id hlock := h'.locked id (h.locked id hlock)
  row id a hlock get := by
    obtain ⟨get', hstore⟩ := h.row id a hlock get
    obtain ⟨get'', hstore'⟩ := h'.row id a (h.locked id hlock) get'
    exact ⟨get'', hstore'.trans hstore⟩

variable [DecidableEq ι]

/-- The two stores agree, and each thread can rely on its locks. -/
def bytes (env : Env) (grace : Int) (ι : Type) [DecidableEq ι] : Discipline (locking ι) where
  inv s := Intact env grace s.reg s.store
  rely := Relies env
  refl _ _ := .of_same rfl rfl fun _ h => h
  trans := .trans
  leave i s h := by
    refine ⟨h, fun j hj => .of_same rfl rfl fun id hlock => ?_⟩
    simp [locking, hlock, hj]

/-- The generated id of a reservation is a UUID that is not in use. -/
def NewId {β : Type} : ι → Cmd β → Shared ι → Prop
  | _, .reserveAsset _ newId _, s => s.reg.assets.get newId = none ∧ Generated newId
  | _, _, _ => True

/-! ### Statements -/

/-- The registry and the objects stay, and so do the locks of the other threads. -/
theorem fair_of_same (inv : Intact env grace s.reg s.store) (reg : s'.reg = s.reg)
    (store : s'.store = s.store)
    (locks : ∀ j id, j ≠ i → s.locks.get id = some j → s'.locks.get id = some j) :
    (bytes env grace ι).Fair i s s' where
  inv := by
    change Intact env grace s'.reg s'.store
    rwa [reg, store]
  rely j hj := .of_same reg store fun id => locks j id hj

/-- A transaction changes no asset that another thread has locked. -/
theorem fair_of_transact {reg : Registry} {clock : Nat → Time} (permits : s.Permits i reg.assets)
    (inv : Intact env grace reg s.store) (leads : Leads env s.reg reg) :
    (bytes env grace ι).Fair i s { s with reg, clock } where
  inv := inv
  rely j hj := by
    refine ⟨leads, fun _ h => h, fun id a hlock get => ⟨?_, rfl⟩⟩
    have hmem : id ∈ s.locks.keys := (s.locks.mem_keys id).mpr (by simp [hlock])
    rcases permits id hmem with hown | hsame
    · exact (hj (Option.some.inj (hlock.symm.trans hown))).elim
    · exact hsame.trans get

/-- The object of an asset that the thread has locked changes. -/
theorem fair_of_store {store : ObjectStore} (inv : Intact env grace s.reg s.store)
    (lock : s.locks.get id = some i) (get : s.reg.assets.get id = some a)
    (inv' : Intact env grace s.reg store)
    (others : ∀ location, location ≠ a.location → store.get location = s.store.get location) :
    (bytes env grace ι).Fair i s { s with store } where
  inv := inv'
  rely j hj := by
    refine ⟨.refl _, fun _ h => h, fun key c hlock hc => ⟨hc, others _ fun heq => ?_⟩⟩
    obtain rfl := inv.keyed.location_inj hc get heq
    exact hj (Option.some.inj (hlock.symm.trans lock))

/-! ### Blocks -/

/-- The program keeps the two stores in agreement, and it ends in `Q`. -/
abbrev Safe {α : Type} (env : Env) (grace : Int) (i : ι) (Q : Except Err α → Shared ι → Prop)
    (p : GuardProg α) (s : Shared ι) : Prop :=
  (bytes env grace ι).Obeys (fun i c s => NewId i c s) i Q p s

/-- A fact about the registry that no call makes false. -/
structure Lasting (env : Env) (grace : Int) (P : Shared ι → Prop) : Prop where
  intact : ∀ {s}, P s → Intact env grace s.reg s.store
  leads : ∀ {s s'}, P s → Leads env s.reg s'.reg → Intact env grace s'.reg s'.store → P s'

omit [DecidableEq ι] in
theorem Lasting.of_same {P : Shared ι → Prop} (hP : Lasting env grace P) (h : P s)
    (reg : s'.reg = s.reg)
    (store : s'.store = s.store) : P s' := by
  refine hP.leads h (reg ▸ .refl _) ?_
  rw [reg, store]
  exact hP.intact h

/-- The thread has locked the asset. -/
def Holds (i : ι) (id : Text) (a : Asset) (s : Shared ι) : Prop :=
  s.locks.get id = some i ∧ s.reg.assets.get id = some a

omit [DecidableEq ι] in
theorem Holds.rely (h : Holds i id a s) (hr : Relies env i s s') : Holds i id a s' :=
  ⟨hr.locked id h.1, (hr.row id a h.1 h.2).1⟩

/-- Whenever the block is closed after the state, its last operation keeps the stores in
agreement. -/
def Closes {β : Type} (env : Env) (grace : Int) (i : ι) (m : RegM β) (s : Shared ι) : Prop :=
  ∀ s1, Relies env i s s1 → Intact env grace s1.reg s1.store →
    ∀ b t, m ⟨s1.reg, s1.clock⟩ = .ok b t →
    Intact env grace t.reg s1.store ∧ Leads env s1.reg t.reg

theorem enterLock_safe {P : Shared ι → Prop} (hP : Lasting env grace P) (h : P s) :
    Safe env grace i (fun r s' => P s' ∧ ∀ a, r = .ok a → Holds i id a s')
      (.perform (.enterLock id)) s := by
  refine .perform (fun s1 e hrely hinv => ⟨hP.leads h hrely.leads hinv, by simp⟩) ?_
  intro s1 r s2 hrely hinv _ hexec
  have h1 : P s1 := hP.leads h hrely.leads hinv
  rcases enterLock_cases hexec with ⟨a, hfree, hget, rfl, rfl⟩ | ⟨e, clock, rfl, rfl⟩
  · have h2 : P { s1 with locks := s1.locks.set id i } := hP.of_same h1 rfl rfl
    refine ⟨fair_of_same hinv rfl rfl fun j key _ hkey => ?_, ⟨h2, ?_⟩, fun e => ⟨h2, by simp⟩⟩
    · rw [Dict.get_set_ne _ _ (by rintro rfl; rw [hfree] at hkey; cases hkey)]
      exact hkey
    · intro c hc
      obtain rfl := Except.ok.inj hc
      exact ⟨Dict.get_set_self _ _ _, hget⟩
  · have h2 : P { s1 with clock } := hP.of_same h1 rfl rfl
    exact ⟨fair_of_same hinv rfl rfl fun _ _ _ hkey => hkey, ⟨h2, by simp⟩, fun e => ⟨h2, by simp⟩⟩

theorem closeLock_safe {β : Type} {m : RegM β} {P : Shared ι → Prop}
    (hP : Lasting env grace P) (h : P s)
    (closes : Closes env grace i m s) :
    Safe env grace i (fun _ s' => P s') (.perform (.closeLock id m)) s := by
  refine .perform (fun s1 e hrely hinv => hP.leads h hrely.leads hinv) ?_
  intro s1 r s2 hrely hinv _ hexec
  have h1 : P s1 := hP.leads h hrely.leads hinv
  rcases closeLock_cases hexec with ⟨b, t, hrun, rfl, hpermits, rfl⟩ | ⟨e, clock, rfl, rfl⟩
  · obtain ⟨hintact, hleads⟩ := closes s1 hrely hinv b t hrun
    have hfair : (bytes env grace ι).Fair i s1 { s1 with reg := t.reg, clock := t.clock } :=
      fair_of_transact hpermits hintact hleads
    have h2 : P (Shared.release { s1 with reg := t.reg, clock := t.clock } i id) := by
      refine hP.leads h1 ?_ ?_
      · rw [release_toGuardState]
        exact hleads
      · rw [release_toGuardState]
        exact hintact
    refine ⟨⟨?_, fun j hj => ?_⟩, h2, fun _ => h2⟩
    · exact hP.intact h2
    · refine (hfair.rely j hj).trans (.of_same (by simp) (by simp) fun key hkey => ?_)
      exact release_locks hkey hj
  · have h2 : P { s1 with clock } := hP.of_same h1 rfl rfl
    exact ⟨fair_of_same hinv rfl rfl fun _ _ _ hkey => hkey, h2, fun _ => h2⟩

theorem breakLock_safe {P : Shared ι → Prop} (hP : Lasting env grace P) (h : P s) :
    Safe env grace i (fun _ s' => P s') (.perform (.breakLock id)) s := by
  refine .perform (fun s1 e hrely hinv => hP.leads h hrely.leads hinv) ?_
  intro s1 r s2 hrely hinv _ hexec
  obtain ⟨rfl, rfl⟩ := Prod.mk.inj (Option.some.inj hexec)
  have h2 : P (s1.release i id) := hP.of_same (hP.leads h hrely.leads hinv) (by simp) (by simp)
  exact ⟨fair_of_same hinv (by simp) (by simp) fun j key hj hkey => release_locks hkey hj, h2,
    fun _ => h2⟩

/-- A locked block is safe when its body is and when its last operation may be committed. -/
theorem withAssetLock_safe {α : Type} {body : Asset → GuardProg (RegM α)} {P : Shared ι → Prop}
    (hP : Lasting env grace P) (h : P s)
    (hbody : ∀ a s1, P s1 → Holds i id a s1 →
      Safe env grace i (fun r s' => P s' ∧ ∀ m, r = .ok m → Closes env grace i m s') (body a) s1) :
    Safe env grace i (fun _ s' => P s') (withAssetLock id body) s := by
  refine .bind (enterLock_safe hP h) (fun a s1 ⟨h1, hheld⟩ => ?_) fun _ _ h1 => h1.1
  have hblock : Safe env grace i (fun _ s' => P s') (do
      let last ← body a
      .perform (.closeLock id last)) s1 :=
    .bind (hbody a s1 h1 (hheld a rfl))
      (fun m s2 ⟨h2, hcloses⟩ => closeLock_safe hP h2 (hcloses m rfl))
      fun _ _ h2 => h2.1
  exact .cleaningUp hblock (fun _ _ h2 => h2)
    (fun _ _ h2 => breakLock_safe hP h2) fun _ _ _ h2 => h2

/-! ### The last operations of the blocks -/

section Closes

variable {β : Type} {now : Time} {reason : Text} {b : β}

omit [DecidableEq ι]

theorem closes_pure : Closes env grace i (pure b : RegM β) s := by
  intro s1 _ hinv b t hrun
  obtain ⟨-, rfl⟩ := pure_eq_ok.mp hrun
  exact ⟨hinv, .refl _⟩

/-- A transition keeps the object. -/
theorem closes_transition {state : AssetState} :
    Closes env grace i (do
      let _ ← lifecycleUpdate a state now reason
      return b) s := by
  intro s1 _ hinv b t hrun
  obtain ⟨u, t1, hupdate, hret⟩ := bind_eq_ok.mp hrun
  obtain ⟨-, rfl⟩ := pure_eq_ok.mp hret
  exact hinv.update hupdate (by simp)

/-- The payload of a locked asset is marked as removed after its object. -/
theorem closes_purge (held : Holds i id a s) (gone : s.store.get a.location = none) :
    Closes env grace i (do
      let _ ← lifecycleUpdate a .deleted now reason true
      return b) s := by
  intro s1 hrely hinv b t hrun
  obtain ⟨u, t1, hupdate, hret⟩ := bind_eq_ok.mp hrun
  obtain ⟨-, rfl⟩ := pure_eq_ok.mp hret
  exact hinv.update hupdate fun _ => (hrely.row id a held.1 held.2).2.trans gone

/-- A locked asset is committed with the size and the checksum of its object. -/
theorem closes_commit {stat : StoredObjectStat} {caller : Text} {mime expected : Option Text}
    {data : List UInt8} (held : Holds i id a s) (stored : s.store.get a.location = some data)
    (hstat : statOf env data = stat) :
    Closes env grace i (commitAsset env id stat.sizeBytes stat.checksum caller mime expected)
      s := by
  intro s1 hrely hinv u t hrun
  obtain ⟨get, hstore⟩ := hrely.row id a held.1 held.2
  exact hinv.commit get hrun (hstore.trans stored) hstat

end Closes

/-! ### Statements without a lock -/

section Neutral

variable {β : Type}

/-- A reading of the registry. -/
theorem neutral_read {m : RegM β} (keeps : Keeps (fun r => r) m) :
    (bytes env grace ι).Neutral (fun i c s => NewId i c s) i β (.registry m) := by
  intro s r s' hinv _ hexec
  rcases transact_cases hexec with ⟨b, t, hrun, -, -, rfl⟩ | ⟨e, clock, -, rfl⟩
  · have hreg : t.reg = s.reg := keeps.ok hrun
    refine ⟨?_, fun j => .of_same hreg rfl fun _ h => h⟩
    change Intact env grace t.reg s.store
    rwa [hreg]
  · exact ⟨hinv, fun j => .of_same rfl rfl fun _ h => h⟩

/-- A statement that changes neither store. -/
theorem neutral_immediate {c : Cmd β}
    (exec : ∀ s : Shared ι, (locking ι).exec i c s = immediately (Cmd.sem β c) s)
    (reg : ∀ g, (final (Cmd.sem β c g)).reg = g.reg)
    (store : ∀ g, (final (Cmd.sem β c g)).store = g.store) :
    (bytes env grace ι).Neutral (fun i c s => NewId i c s) i β c := by
  intro s r s' hinv _ hexec
  rw [exec] at hexec
  obtain rfl := immediately_cases hexec
  refine ⟨?_, fun j => .of_same (reg _) (store _) fun _ h => h⟩
  change Intact env grace (final (Cmd.sem β c s.toGuardState)).reg
    (final (Cmd.sem β c s.toGuardState)).store
  rwa [reg, store]

/-- A step of the ledger. -/
theorem neutral_ledger {c : Cmd Unit} {step : Ledger → Time → Except Err Unit × Ledger}
    (exec : ∀ s : Shared ι, (locking ι).exec i c s = immediately (Cmd.sem Unit c) s)
    (sem : Cmd.sem Unit c = ledgerStep step) :
    (bytes env grace ι).Neutral (fun i c s => NewId i c s) i Unit c := by
  have hsame : ∀ g, (final (ledgerStep step g)).reg = g.reg ∧
      (final (ledgerStep step g)).store = g.store := by
    intro g
    simp only [ledgerStep]
    split <;> exact ⟨rfl, rfl⟩
  exact neutral_immediate exec (fun g => by rw [sem, (hsame g).1]) fun g => by rw [sem, (hsame g).2]

theorem neutral_assertUnused {cap : Capability} :
    (bytes env grace ι).Neutral (fun i c s => NewId i c s) i Unit (.assertUnused cap) :=
  neutral_ledger (fun _ => rfl) (by rw [Cmd.sem])

theorem neutral_recordSuccessfulUse {cap : Capability} :
    (bytes env grace ι).Neutral (fun i c s => NewId i c s) i Unit (.recordSuccessfulUse cap) :=
  neutral_ledger (fun _ => rfl) (by rw [Cmd.sem])

theorem neutral_getObject {location : ObjectStoreLocation} :
    (bytes env grace ι).Neutral (fun i c s => NewId i c s) i (List UInt8)
      (.getObject location) := by
  have hsame : ∀ g, final (Cmd.sem _ (.getObject location) g) = g := by
    intro g
    simp only [Cmd.sem, getStored]
    split <;> rfl
  exact neutral_immediate (fun _ => rfl) (fun g => by rw [hsame]) fun g => by rw [hsame]

end Neutral

/-! ### Uploads -/

/-- The asset of an upload is stored at the location. -/
def LocatedAt (env : Env) (grace : Int) (id : Text) (location : ObjectStoreLocation)
    (s : Shared ι) : Prop :=
  Intact env grace s.reg s.store ∧ ∃ a, s.reg.assets.get id = some a ∧ a.location = location

omit [DecidableEq ι] in
theorem lasting_intact : Lasting env grace fun s : Shared ι => Intact env grace s.reg s.store where
  intact h := h
  leads _ _ h := h

omit [DecidableEq ι] in
theorem lasting_locatedAt {location : ObjectStoreLocation} :
    Lasting (ι := ι) env grace (LocatedAt env grace id location) where
  intact h := h.1
  leads := by
    rintro s s' ⟨hintact, a, get, hlocation⟩ hleads hintact'
    obtain ⟨calls, hcalls⟩ := hintact.reached
    obtain ⟨more, hmore⟩ := hleads
    obtain ⟨a', get', hev⟩ := hcalls.evolves hmore get
    refine ⟨hintact', a', get', ?_⟩
    rw [← hlocation, Asset.location, hev.space, hev.storageKey, Asset.location]

/-- Readings and checks before, between and after the blocks. -/
theorem safe_of_neutral {α : Type} {p : GuardProg α} {P : Shared ι → Prop}
    (hP : Lasting env grace P)
    (h : P s) (neutral : p.All ((bytes env grace ι).Neutral (fun i c s => NewId i c s) i)
      fun _ => True) :
    Safe env grace i (fun _ s' => P s' ∧ Relies env i s s') p s :=
  (Discipline.obeys_of_neutral neutral (hP.intact h)).conseq fun _ _ ⟨hinv, hrely, _⟩ =>
    ⟨hP.leads h hrely.leads hinv, hrely⟩

theorem safe_tail {α : Type} {p : GuardProg α} (h : Intact env grace s.reg s.store)
    (neutral : p.All ((bytes env grace ι).Neutral (fun i c s => NewId i c s) i) fun _ => True) :
    Safe env grace i (fun _ _ => True) p s :=
  (safe_of_neutral lasting_intact h neutral).conseq fun _ _ _ => trivial

/-- The location of a stored asset. -/
theorem Intact.forAsset {r : Registry} {store : ObjectStore} (h : Intact env grace r store)
    (get : r.assets.get id = some a) :
    ObjectStoreLocation.forAsset a.space a.partitionId id = .ok a.location := by
  obtain ⟨calls, hcalls⟩ := h.reached
  have hspace := (stored_valid (s := ⟨r, fun _ => 0⟩) hcalls.sound.1 get).1.space_mem
  simp only [ObjectStoreLocation.forAsset, normalizeBucket_of_mem hspace, (h.keyed id a get).2]
  rfl

theorem putObject_safe {location : ObjectStoreLocation} {data : List UInt8}
    (h : LocatedAt env grace id location s) (held : Holds i id a s) (pending : a.state = .pending) :
    Safe env grace i (fun r s' => LocatedAt env grace id location s' ∧
        ∀ stat, r = .ok stat → Holds i id a s' ∧ s'.store.get a.location = some data ∧
          statOf env data = stat)
      (.perform (.putObject env location data)) s := by
  refine .perform (fun s1 e hrely hinv => ⟨lasting_locatedAt.leads h hrely.leads hinv, by simp⟩) ?_
  intro s1 r s2 hrely hinv _ hexec
  have h1 := lasting_locatedAt.leads h hrely.leads hinv
  have held1 := held.rely hrely
  obtain ⟨-, c, hc, rfl⟩ := h1
  obtain rfl : c = a := Option.some.inj (hc.symm.trans held1.2)
  obtain ⟨rfl, rfl⟩ := Prod.mk.inj (Option.some.inj hexec)
  have hdead : ¬c.Live := by
    rintro (hstate | ⟨hstate, -⟩) <;> cases pending.symm.trans hstate
  have hput := hinv.put hc hdead ((hinv.shaped id c hc).pending pending).2.2.2 data
  have h2 : LocatedAt env grace id c.location { s1 with store := s1.store.set c.location data } :=
    ⟨hput, c, hc, rfl⟩
  refine ⟨fair_of_store hinv held1.1 hc hput fun _ hne => Dict.get_set_ne _ _ hne, ⟨h2, ?_⟩,
    fun _ => ⟨h2, by simp⟩⟩
  intro stat hstat
  exact ⟨held1, Dict.get_set_self _ _ _, Except.ok.inj hstat⟩

theorem deleteObject_safe {P : Shared ι → Prop} (hP : Lasting env grace P) (h : P s)
    (held : Holds i id a s)
    (deleted : a.state = .deleted) :
    Safe env grace i (fun r s' => P s' ∧ ∀ u, r = .ok u →
      Holds i id a s' ∧ s'.store.get a.location = none)
      (.perform (.deleteObject a.location)) s := by
  refine .perform (fun s1 e hrely hinv => ⟨hP.leads h hrely.leads hinv, by simp⟩) ?_
  intro s1 r s2 hrely hinv _ hexec
  have h1 : P s1 := hP.leads h hrely.leads hinv
  have held1 := held.rely hrely
  obtain ⟨rfl, rfl⟩ := Prod.mk.inj (Option.some.inj hexec)
  have hdead : ¬a.Live := by
    rintro (hstate | ⟨hstate, -⟩) <;> cases deleted.symm.trans hstate
  have herase := hinv.erase held1.2 hdead
  have h2 : P { s1 with store := s1.store.erase a.location } := hP.leads h1 (.refl _) herase
  refine ⟨fair_of_store hinv held1.1 held1.2 herase fun _ hne => Dict.get_erase_ne _ hne, ⟨h2, ?_⟩,
    fun _ => ⟨h2, by simp⟩⟩
  intro _ _
  exact ⟨held1, Dict.get_erase_self _ _⟩

section Uploads

variable {location : ObjectStoreLocation} {cap : Capability} {data : List UInt8}
  {opts : WriteOptions}
  {P : Shared ι → Prop}

theorem uploadLocked_safe (h : LocatedAt env grace id location s) :
    Safe env grace i (fun _ s' => LocatedAt env grace id location s')
      (uploadLocked env cap id location data opts) s := by
  refine withAssetLock_safe lasting_locatedAt h fun a s1 h1 held => ?_
  refine .ret_bind (fun _ hchecked => ?_) fun _ _ => ⟨h1, by simp⟩
  have hpending : a.state = .pending := not_not.mp (raiseIf_eq_ok.mp hchecked)
  refine .bind (putObject_safe h1 held hpending) (fun stat s2 ⟨h2, hput⟩ => ⟨h2, fun m hm => ?_⟩)
    fun _ _ h2 => ⟨h2.1, by simp⟩
  obtain rfl := Except.ok.inj hm
  obtain ⟨held2, hstored, hstat⟩ := hput stat rfl
  exact closes_commit held2 hstored hstat

theorem fenceUpload_safe (hP : Lasting env grace P) (h : P s) :
    Safe env grace i (fun _ s' => P s') (fenceUpload id) s := by
  refine withAssetLock_safe hP h fun a s1 h1 held => .ite (fun _ => ?_) fun _ => ?_
  · refine .bind (safe_of_neutral hP h1 (.perform (neutral_read Within.utcnow)))
      (fun now s2 h2 => ⟨h2.1, fun m hm => ?_⟩) fun _ _ h2 => ⟨h2.1, by simp⟩
    obtain rfl := Except.ok.inj hm
    exact closes_transition
  · refine ⟨h1, fun m hm => ?_⟩
    obtain rfl := Except.ok.inj hm
    exact closes_pure

theorem purgeUpload_safe (h : LocatedAt env grace id location s) :
    Safe env grace i (fun _ s' => LocatedAt env grace id location s')
      (purgeUpload id location) s := by
  refine withAssetLock_safe lasting_locatedAt h fun a s1 h1 held =>
    .ite (fun _ => ?_) fun hfenced => ?_
  · refine ⟨h1, fun m hm => ?_⟩
    obtain rfl := Except.ok.inj hm
    exact closes_pure
  · have hdeleted : a.state = .deleted := not_not.mp (not_or.mp hfenced).2
    have hlocated := h1
    obtain ⟨-, c, hc, rfl⟩ := hlocated
    obtain rfl : c = a := Option.some.inj (hc.symm.trans held.2)
    refine .bind (deleteObject_safe lasting_locatedAt h1 held hdeleted) (fun u s2 ⟨h2, hgone⟩ => ?_)
      fun _ _ h2 => ⟨h2.1, by simp⟩
    obtain ⟨held2, hgone2⟩ := hgone u rfl
    refine .bind (safe_of_neutral lasting_locatedAt h2 (.perform (neutral_read Within.utcnow)))
      (fun now s3 ⟨h3, hrely⟩ => ⟨h3, fun m hm => ?_⟩) fun _ _ h3 => ⟨h3.1, by simp⟩
    obtain rfl := Except.ok.inj hm
    exact closes_purge (held2.rely hrely) ((hrely.row _ c held2.1 held2.2).2.trans hgone2)

theorem cleanupFailedUpload_safe (h : LocatedAt env grace id location s) :
    Safe env grace i (fun _ s' => LocatedAt env grace id location s')
      (cleanupFailedUpload id location) s := by
  have hcleanup : Safe env grace i (fun _ s' => LocatedAt env grace id location s') (do
      let removable ← fenceUpload id
      if removable then purgeUpload id location else pure ()) s :=
    .bind (fenceUpload_safe lasting_locatedAt h)
      (fun removable s1 h1 => .ite (fun _ => purgeUpload_safe h1) fun _ => h1) fun _ _ h1 => h1
  exact .tryCatch hcleanup (fun _ _ h1 => h1) fun _ _ h1 => h1

/-- A registry call that neither commits nor maintains. -/
theorem transact_safe {β : Type} {m : RegM β} {op : Op} {s1 s2 : Shared ι} {r : Except Err β}
    (hinv : Intact env grace s1.reg s1.store) (fresh : op.Fresh s1.reg) (outside : op.Outside)
    (generated : ∀ newId req, op = .reserveAsset newId req → Generated newId)
    (final_eq : ∀ s, (final (m s)).reg = (final (op.run env s)).reg)
    (h : transact i m s1 = some (r, s2)) :
    (bytes env grace ι).Fair i s1 s2 ∧ Intact env grace s2.reg s2.store := by
  rcases transact_cases h with ⟨b, t, hrun, -, hpermits, rfl⟩ | ⟨e, clock, -, rfl⟩
  · have hreg : op.exec env s1.clock s1.reg = t.reg := by
      rw [Op.exec, ← final_eq, hrun, final_ok]
    have hintact : Intact env grace t.reg s1.store := hreg ▸ hinv.outside fresh outside generated
    have hleads : Leads env s1.reg t.reg := hreg ▸ .call fresh
    exact ⟨fair_of_transact hpermits hintact hleads, hintact⟩
  · exact ⟨fair_of_same hinv rfl rfl fun _ _ _ h => h, hinv⟩

theorem transact_reserve_safe {newId : Text} {req : ReserveRequest} {s1 s2 : Shared ι}
    {r : Except Err Asset} (hinv : Intact env grace s1.reg s1.store)
    (fresh : s1.reg.assets.get newId = none ∧ Generated newId)
    (h : transact i (reserveAsset env newId req) s1 = some (r, s2)) :
    (bytes env grace ι).Fair i s1 s2 ∧ Intact env grace s2.reg s2.store := by
  have hfresh : (Op.reserveAsset newId req).Fresh s1.reg := fresh.1
  refine transact_safe hinv hfresh trivial (fun newId' req' heq => ?_) (fun _ => by simp [Op.run]) h
  obtain ⟨rfl, rfl⟩ := Op.reserveAsset.inj heq
  exact fresh.2

/-- A reservation stores a new asset. -/
theorem reserveAsset_safe {newId name : Text} {mutable : Bool} {req : ReserveRequest}
    (single : req.aliases = [(name, mutable)]) :
    Safe env grace i (fun r s' => Intact env grace s'.reg s'.store ∧
        ∀ a, r = .ok a → s'.reg.assets.get a.assetId = some a)
      (.perform (.reserveAsset env newId req)) s := by
  refine .perform (fun s1 e _ hinv => ⟨hinv, by simp⟩) fun s1 r s2 _ hinv hok hexec => ?_
  obtain ⟨hfair, hintact⟩ := transact_reserve_safe hinv hok hexec
  refine ⟨hfair, ⟨hintact, fun a ha => ?_⟩, fun _ => ⟨hintact, by simp⟩⟩
  rcases transact_cases hexec with ⟨b, t, hrun, rfl, -, rfl⟩ | ⟨e, clock, rfl, rfl⟩
  · obtain rfl := Except.ok.inj ha
    obtain ⟨_, _, _, _, _, -, -, -, -, -, -, -, -, hassets, hid, -⟩ :=
      reserveAsset_single single hrun
    change t.reg.assets.get b.assetId = some b
    rw [hassets, hid, Dict.get_set_self]
  · cases ha

theorem authorize_neutral {operation : Operation} {aliasName : Text} :
    (authorize cap operation aliasName).All
      ((bytes env grace ι).Neutral (fun i c s => NewId i c s) i) fun _ => True := by
  refine .bind .ret fun _ _ => .bind (.perform (neutral_read Within.utcnow)) fun _ _ => ?_
  refine .bind .ret fun _ _ => .bind (.perform neutral_assertUnused) fun _ _ => ?_
  exact .bind .ret fun _ _ => .ret

theorem writeObject_safe {newId aliasName : Text} (h : Intact env grace s.reg s.store) :
    Safe env grace i (fun _ _ => True) (writeObject env newId cap aliasName data opts) s := by
  refine .bind (safe_of_neutral lasting_intact h authorize_neutral)
    (fun parsed s1 _ => ?_) fun _ _ _ => trivial
  refine .bind (reserveAsset_safe rfl) (fun a s2 ⟨h2, hstored⟩ => ?_) fun _ _ _ => trivial
  have hget := hstored a rfl
  refine .ret_bind (fun location hlocation => ?_) fun _ _ => trivial
  obtain rfl : a.location = location := Except.ok.inj ((h2.forAsset hget).symm.trans hlocation)
  have hlocated : LocatedAt env grace a.assetId a.location s2 := ⟨h2, a, hget, rfl⟩
  have hupload : Safe env grace i (fun _ s' => LocatedAt env grace a.assetId a.location s')
      (Prog.cleaningUp (uploadLocked env cap a.assetId a.location data opts)
        (cleanupFailedUpload a.assetId a.location)) s2 :=
    .cleaningUp (uploadLocked_safe hlocated) (fun _ _ h3 => h3)
      (fun _ _ h3 => cleanupFailedUpload_safe h3)
      fun _ _ _ h3 => h3
  refine .bind hupload (fun asset s3 h3 => safe_tail h3.1 ?_) fun _ _ _ => trivial
  exact .bind (.perform neutral_recordSuccessfulUse) fun _ _ => .ret

end Uploads

/-! ### Raw commits -/

theorem statObject_safe {location : ObjectStoreLocation}
    (held : Holds i id a s) (hlocation : a.location = location) :
    Safe env grace i (fun r s' => Intact env grace s'.reg s'.store ∧
        ∀ found, r = .ok found → Holds i id a s' ∧
          (s'.store.get a.location).map (statOf env) = found)
      (.perform (.statObject env location)) s := by
  refine .perform (fun s1 e hrely hinv => ⟨hinv, by simp⟩) fun s1 r s2 hrely hinv _ hexec => ?_
  obtain ⟨rfl, rfl⟩ := Prod.mk.inj (Option.some.inj hexec)
  refine ⟨fair_of_same hinv rfl rfl fun _ _ _ h => h, ⟨hinv, fun found hfound => ?_⟩,
    fun _ => ⟨hinv, by simp⟩⟩
  exact ⟨held.rely hrely, hlocation ▸ Except.ok.inj hfound⟩

theorem commitLocked_safe {caller : Text} {body : CommitRequest}
    (h : Intact env grace s.reg s.store) :
    Safe env grace i (fun _ s' => Intact env grace s'.reg s'.store)
      (commitLocked env caller id body) s := by
  refine withAssetLock_safe lasting_intact h fun a s1 h1 held => ?_
  refine .ret_bind (fun _ _ => ?_) fun _ _ => ⟨h1, by simp⟩
  refine .ret_bind (fun _ _ => ?_) fun _ _ => ⟨h1, by simp⟩
  refine .ret_bind (fun location hlocation => ?_) fun _ _ => ⟨h1, by simp⟩
  have hid : a.assetId = id := by
    obtain ⟨calls, hcalls⟩ := h1.reached
    exact hcalls.filed id a held.2
  rw [hid] at hlocation
  have hloc : a.location = location := Except.ok.inj ((h1.forAsset held.2).symm.trans hlocation)
  refine .bind (statObject_safe held hloc) (fun found s2 ⟨h2, hfound⟩ => ?_) fun _ _ h2 =>
    ⟨h2.1, by simp⟩
  obtain ⟨held2, hmap⟩ := hfound found rfl
  refine .ret_bind (fun stat hstat => ?_) fun _ _ => ⟨h2, by simp⟩
  refine .ret_bind (fun _ _ => ⟨h2, fun m hm => ?_⟩) fun _ _ => ⟨h2, by simp⟩
  obtain rfl := Except.ok.inj hm
  obtain ⟨data, hdata, rfl⟩ := Option.map_eq_some_iff.mp (hmap.trans (someOr_eq_ok.mp hstat))
  exact closes_commit held2 hdata rfl

theorem commit_safe {caller : Text} {body : CommitRequest} (h : Intact env grace s.reg s.store) :
    Safe env grace i (fun _ _ => True) (commit env caller id body) s := by
  refine .ret_bind (fun _ _ => ?_) fun _ _ => trivial
  refine .bind (commitLocked_safe h) (fun asset s1 h1 => ?_) fun _ _ _ => trivial
  exact safe_tail h1 (.bind (.perform (neutral_read Within.bucketQuota)) fun _ _ => .ret)

/-! ### Reads and sweeps -/

/-- A registry call that neither reserves, commits nor maintains. -/
theorem call_safe {β : Type} {m : RegM β} {op : Op} (outside : op.Outside)
    (hop : ∀ newId req, op ≠ .reserveAsset newId req)
    (final_eq : ∀ s, (final (m s)).reg = (final (op.run env s)).reg) :
    Safe env grace i (fun _ s' => Intact env grace s'.reg s'.store) (registry m) s := by
  refine .perform (fun _ _ _ hinv => hinv) fun s1 r s2 _ hinv _ hexec => ?_
  obtain ⟨hfair, hintact⟩ := transact_safe hinv (Op.fresh_of_ne hop _) outside
    (fun newId req heq => (hop newId req heq).elim) final_eq hexec
  exact ⟨hfair, hintact, fun _ => hintact⟩

theorem readBytes_safe {cap : Capability} {aliasName : Text} (h : Intact env grace s.reg s.store) :
    Safe env grace i (fun _ _ => True) (readBytes cap aliasName) s := by
  have hresolve : (resolveForRead cap aliasName).All
      ((bytes env grace ι).Neutral (fun i c s => NewId i c s) i) fun _ => True :=
    .bind authorize_neutral fun _ _ =>
      .bind (.perform (neutral_read Within.resolveAlias)) fun _ _ =>
      .bind .ret fun _ _ => .ret
  refine .bind (safe_of_neutral lasting_intact h hresolve)
    (fun found s1 ⟨h1, _⟩ => ?_) fun _ _ _ => trivial
  refine .bind (safe_of_neutral lasting_intact h1 (.perform neutral_getObject))
    (fun data s2 _ => ?_)
    fun _ _ _ => trivial
  have hread : Safe env grace i (fun _ s' => Intact env grace s'.reg s'.store)
      (registry (recordRead found.1.assetId)) s2 :=
    @call_safe _ _ _ _ _ _ _ _ (.recordRead found.1.assetId) trivial (fun _ _ => by simp)
      fun _ => by simp [Op.run]
  refine .bind hread (fun _ s3 h3 => safe_tail h3 ?_) fun _ _ _ => trivial
  exact .bind (.perform neutral_recordSuccessfulUse) fun _ _ => .ret

section Sweeps

variable {arith : Arithmetic} {policy : SweepPolicy} {now : Time} {action : Action}

theorem transitionLocked_safe (h : Intact env grace s.reg s.store) :
    Safe env grace i (fun _ s' => Intact env grace s'.reg s'.store)
      (transitionLocked arith policy now action) s := by
  refine withAssetLock_safe lasting_intact h fun current s1 h1 held => ?_
  have skip : ∀ {b : Bool} {s2 : Shared ι}, Intact env grace s2.reg s2.store →
      Safe env grace i (fun r s' => Intact env grace s'.reg s'.store ∧ ∀ m, r = .ok m →
        Closes env grace i m s')
        (pure (pure b : RegM Bool)) s2 := by
    refine fun h2 => ⟨h2, fun m hm => ?_⟩
    obtain rfl := Except.ok.inj hm
    exact closes_pure
  refine .ite (fun _ => skip h1) fun _ => ?_
  refine .bind (safe_of_neutral lasting_intact h1 (stillDue_all neutral_read))
    (fun due s2 ⟨h2, _⟩ => ?_)
    fun _ _ h2 => ⟨h2.1, by simp⟩
  refine .ite (fun _ => skip h2) fun _ => .ite (fun _ => ⟨h2, fun m hm => ?_⟩) fun _ => skip h2
  obtain rfl := Except.ok.inj hm
  exact closes_transition

theorem purgeLocked_safe (h : Intact env grace s.reg s.store) :
    Safe env grace i (fun _ s' => Intact env grace s'.reg s'.store) (purgeLocked now action) s := by
  refine withAssetLock_safe lasting_intact h fun fenced s1 h1 held => .ite (fun _ => ?_) fun _ => ?_
  · refine ⟨h1, fun m hm => ?_⟩
    obtain rfl := Except.ok.inj hm
    exact closes_pure
  · refine .ret_bind (fun _ hfenced => ?_) fun _ _ => ⟨h1, by simp⟩
    have hdeleted : fenced.state = .deleted := not_not.mp (raiseIf_eq_ok.mp hfenced)
    refine .bind (deleteObject_safe lasting_intact h1 held hdeleted)
      (fun u s2 ⟨h2, hgone⟩ => ⟨h2, fun m hm => ?_⟩)
      fun _ _ h2 => ⟨h2.1, by simp⟩
    obtain rfl := Except.ok.inj hm
    obtain ⟨held2, hgone2⟩ := hgone u rfl
    exact closes_purge held2 hgone2

theorem applyActions_safe : ∀ {actions : List Action} {report : SweepReport} {s : Shared ι},
    Intact env grace s.reg s.store →
    Safe env grace i (fun _ s' => Intact env grace s'.reg s'.store)
      (applyActions arith policy now actions report) s
  | [], _, _, h => h
  | action :: rest, _, _, h => by
    have happly : ∀ {s : Shared ι}, Intact env grace s.reg s.store →
        Safe env grace i (fun _ s' => Intact env grace s'.reg s'.store)
          (applyAction arith policy now action) s :=
      fun h => .bind (transitionLocked_safe h)
        (fun _ _ h1 => .ite (fun _ => purgeLocked_safe h1) fun _ => h1) fun _ _ h1 => h1
    have hone : Safe env grace i (fun _ s' => Intact env grace s'.reg s'.store) (do
        let applied ← applyAction arith policy now action
        return some applied) _ := .bind (happly h) (fun _ _ h1 => h1) fun _ _ h1 => h1
    have hcaught :
        Safe env grace i (fun _ s' => Intact env grace s'.reg s'.store) (Prog.tryCatch (do
        let applied ← applyAction arith policy now action
        return some applied) fun _ => pure none) _ :=
      .tryCatch hone (fun _ _ h1 => h1) fun _ _ h1 => h1
    exact .bind hcaught (fun _ _ h1 => applyActions_safe h1) fun _ _ h1 => h1

theorem runSweep_safe {dryRun : Bool} {given : Option Time} (h : Intact env grace s.reg s.store) :
    Safe env grace i (fun _ s' => Intact env grace s'.reg s'.store)
      (runSweep arith policy dryRun given) s := by
  have hnow : (nowOr given).All ((bytes env grace ι).Neutral (fun i c s => NewId i c s) i)
      fun _ => True := by
    cases given with
    | some t => exact .ret
    | none => exact .perform (neutral_read Within.utcnow)
  refine .bind (safe_of_neutral lasting_intact h hnow) (fun now s1 ⟨h1, _⟩ => ?_) fun _ _ h1 => h1.1
  have hplan :
      (planSweep arith policy now).All ((bytes env grace ι).Neutral (fun i c s => NewId i c s) i)
      fun _ => True := .conseq (planSweep_all neutral_read) fun _ _ => trivial
  refine .bind (safe_of_neutral lasting_intact h1 hplan)
    (fun plan s2 ⟨h2, _⟩ => ?_) fun _ _ h2 => h2.1
  exact .ite (fun _ => h2) fun _ => applyActions_safe h2

end Sweeps

/-! ### Runs -/

/-- Who takes part in a run. -/
inductive Party
  | write (newId : Text) (cap : Capability) (aliasName : Text) (data : List UInt8)
      (opts : WriteOptions)
  | read (cap : Capability) (aliasName : Text)
  | commit (caller assetId : Text) (body : CommitRequest)
  | sweep (policy : SweepPolicy) (dryRun : Bool) (now : Option Time)
  | call (op : Op) (outside : op.Outside)

def Party.prog (env : Env) : Party → GuardProg Unit
  | .write newId cap aliasName data opts => do
    let _ ← writeObject env newId cap aliasName data opts
  | .read cap aliasName => do
    let _ ← readBytes cap aliasName
  | .commit caller assetId body => do
    let _ ← AssetStore.commit env caller assetId body
  | .sweep policy dryRun now => do
    let _ ← runSweep .double policy dryRun now
  | .call (.reserveAsset newId req) _ => do
    let _ ← .perform (.reserveAsset env newId req)
  | .call op _ => do
    let _ ← registry (op.run env)

theorem Party.prog_safe (party : Party) (h : Intact env grace s.reg s.store) :
    Safe env grace i (fun _ _ => True) (party.prog env) s := by
  have discard :
      ∀ {α : Type} {p : GuardProg α} {Q : Except Err α → Shared ι → Prop}, Safe env grace i Q p s →
      Safe env grace i (fun _ _ => True) (do let _ ← p) s :=
    fun hp => .bind hp (fun _ _ _ => trivial) fun _ _ _ => trivial
  cases party with
  | write newId cap aliasName data opts => exact discard (writeObject_safe h)
  | read cap aliasName => exact discard (readBytes_safe h)
  | commit caller assetId body => exact discard (commit_safe h)
  | sweep policy dryRun now => exact discard (runSweep_safe h)
  | call op outside =>
    cases op with
    | reserveAsset newId req =>
      refine discard (Q := fun _ _ => True)
        (.perform (fun _ _ _ _ => trivial) fun s1 r s2 _ hinv hok hexec => ?_)
      exact ⟨(transact_reserve_safe hinv hok hexec).1, trivial, fun _ => trivial⟩
    | _ => exact discard (call_safe outside (fun _ _ => by simp) fun _ => rfl)

/-- The state before the first request. -/
def Shared.initial (grace : Int) (ledger : Ledger) (clock : Nat → Time) : Shared ι :=
  { reg := .initial grace, store := .empty, ledger, clock, locks := .empty }

variable {parties : ι → Party} {ledger : Ledger} {clock : Nat → Time} {T : ι → GuardProg Unit}

theorem intact_of_runs
    (h : (locking ι).Runs (fun i c s => NewId i c s)
      (.initial grace ledger clock, fun i => (parties i).prog env) (s, T)) :
    Intact env grace s.reg s.store := by
  have hstart :
      (bytes env grace ι).Kept (fun i c s => NewId i c s) (Shared.initial grace ledger clock)
      fun i => (parties i).prog env := ⟨.initial, fun i => (parties i).prog_safe .initial⟩
  exact (hstart.runs h).inv

/-- In every reachable state a live asset has its bytes. -/
theorem live_bytes_of_runs
    (h : (locking ι).Runs (fun i c s => NewId i c s)
      (.initial grace ledger clock, fun i => (parties i).prog env) (s, T)) :
    ∀ id a, s.reg.assets.get id = some a →
      a.state = .available ∨ a.state = .expired ∧ a.sizeBytes ≠ none →
      ∃ location data, ObjectStoreLocation.forAsset a.space a.partitionId a.assetId = .ok location ∧
        s.store.get location = some data ∧ a.sizeBytes = some data.length ∧
        a.checksum = some (computeChecksum env data) := by
  intro id a get hlive
  have hintact := intact_of_runs h
  obtain ⟨calls, hcalls⟩ := hintact.reached
  obtain ⟨data, hdata, hsize, hchecksum⟩ := hintact.live id a get hlive
  have hid : a.assetId = id := hcalls.filed id a get
  exact ⟨a.location, data, hid ▸ hintact.forAsset get, hdata, hsize, hchecksum⟩

/-- In every reachable state an object belongs to an asset that `list_assets` returns. -/
theorem bytes_listed_of_runs
    (h : (locking ι).Runs (fun i c s => NewId i c s)
      (.initial grace ledger clock, fun i => (parties i).prog env) (s, T)) :
    ∀ location data, s.store.get location = some data →
      ∃ id a, s.reg.assets.get id = some a ∧
        ObjectStoreLocation.forAsset a.space a.partitionId a.assetId = .ok location ∧
        a.payloadDeletedAt = none ∧
        ∃ listed t, listAssets ⟨s.reg, s.clock⟩ = .ok listed t ∧ a ∈ listed := by
  intro location data hdata
  have hintact := intact_of_runs h
  obtain ⟨calls, hcalls⟩ := hintact.reached
  obtain ⟨id, a, get, rfl, hpayload⟩ := hintact.owned location data hdata
  have hid : a.assetId = id := hcalls.filed id a get
  refine ⟨id, a, get, hid ▸ hintact.forAsset get, hpayload, _, _, rfl, ?_⟩
  exact List.mem_filter.mpr ⟨Dict.mem_values.mpr ⟨id, get⟩, by simp [hpayload]⟩

/-! Two uploads that are interleaved; the second one is not finished. -/

instance {β : Type} (i : ι) (c : Cmd β) (s : Shared ι) : Decidable (NewId i c s) :=
  decidable_of_iff (∀ newId ∈ c.newId, s.reg.assets.get newId = none ∧ Generated newId) (by
    cases c <;> simp [Cmd.newId, NewId])

def uploadTo (newId aliasName : Text) : Party :=
  .write newId (fetcherGrant "cache/m".toList plainScope_valid) aliasName [] {}

def twoUploads : Bool → Party
  | true => uploadTo "a1".toList "cache/m/x".toList
  | false => uploadTo "a2".toList "cache/m/y".toList

def twoUploadsStart : Shared Bool := .initial 0 .empty fun _ => 0

def uploading : List Bool :=
  [true, false, true, false, true, false, true, false, true, false, true, true]

theorem twoUploads_plays : ∃ s T, (locking Bool).Runs (fun i c s => NewId i c s)
    (twoUploadsStart, fun i => (twoUploads i).prog plainEnv) (s, T) ∧
      (∃ a, s.reg.assets.get "a1".toList = some a ∧ a.state = .available) ∧
      (∃ a, s.reg.assets.get "a2".toList = some a ∧ a.state = .pending) ∧
      ∃ data, s.store.get ⟨"cache".toList, "m/assets/a2".toList⟩ = some data := by
  have hplay : ((locking Bool).play (fun i c s => decide (NewId i c s)) uploading
      (twoUploadsStart, fun i => (twoUploads i).prog plainEnv)).any (fun c =>
        (c.1.reg.assets.get "a1".toList).any (fun a => a.state == .available) &&
        (c.1.reg.assets.get "a2".toList).any (fun a => a.state == .pending) &&
        (c.1.store.get ⟨"cache".toList, "m/assets/a2".toList⟩).isSome) = true := by decide +kernel
  obtain ⟨s, T, hrun, hs⟩ := Machine.exists_runs_of_play hplay
  simp only [Bool.and_eq_true, Option.any_eq_true, beq_iff_eq, Option.isSome_iff_exists] at hs
  exact ⟨s, T, hrun.mono fun _ _ _ h => of_decide_eq_true h, hs.1.1, hs.1.2, hs.2⟩

theorem live_bytes_uploaded : ∃ s T a location data, (locking Bool).Runs (fun i c s => NewId i c s)
    (twoUploadsStart, fun i => (twoUploads i).prog plainEnv) (s, T) ∧
      s.reg.assets.get "a1".toList = some a ∧ s.store.get location = some data ∧
      a.sizeBytes = some data.length := by
  obtain ⟨s, T, hrun, ⟨a, get, hstate⟩, -, -⟩ := twoUploads_plays
  obtain ⟨location, data, -, hdata, hsize, -⟩ := live_bytes_of_runs hrun _ a get (.inl hstate)
  exact ⟨s, T, a, location, data, hrun, get, hdata, hsize⟩

theorem bytes_listed_uploading : ∃ s T data id a, (locking Bool).Runs (fun i c s => NewId i c s)
    (twoUploadsStart, fun i => (twoUploads i).prog plainEnv) (s, T) ∧
      s.store.get ⟨"cache".toList, "m/assets/a2".toList⟩ = some data ∧
      s.reg.assets.get id = some a ∧ a.payloadDeletedAt = none := by
  obtain ⟨s, T, hrun, -, -, data, hdata⟩ := twoUploads_plays
  obtain ⟨id, a, get, -, hpayload, -⟩ := bytes_listed_of_runs hrun _ data hdata
  exact ⟨s, T, data, id, a, hrun, hdata, get, hpayload⟩

end AssetStore
