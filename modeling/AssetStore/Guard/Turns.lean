import AssetStore.Guard.Spec
import AssetStore.Lib.Blocks
import AssetStore.Registry.Revision

/-! Guard calls whose locked blocks are atomic. Each turn of a call is a statement outside of any
block or a whole block, and it gives the assets that it changes readings of its own as their
revisions. -/

namespace AssetStore

open Lib

/-- A block is entered when the lock is taken. It is left by the last registry operation, or broken
off. -/
def lockBlocks : Brackets Cmd Err where
  enters := fun c r =>
    match c with
    | .enterLock _ => r.toBool
    | _ => false
  leaves := fun c r =>
    match c with
    | .closeLock _ _ => r.toBool
    | .breakLock _ => true
    | _ => false

/-- The statement does not leave a block. -/
def Cmd.Stays (β : Type) (c : Cmd β) : Prop := ∀ r, lockBlocks.leaves c r = false

variable {α β : Type} {id : Text}

theorem registry_atomic {m : RegM α} : (registry m).Atomic lockBlocks Cmd.sem :=
  Prog.Atomic.perform fun _ => rfl

/-- A locked block is atomic. -/
theorem withAssetLock_atomic {body : Asset → GuardProg (RegM α)}
    (h : ∀ a, (body a).All Cmd.Stays fun _ => True) :
    (withAssetLock id body).Atomic lockBlocks Cmd.sem :=
  Prog.Atomic.block (fun _ => rfl) fun a => ⟨rfl, .cleaningUp (h a) (fun _ _ => rfl) fun _ => rfl⟩

/-! ### Revisions -/

/-- What a relation of registry sessions says about the guard. -/
def OnRegistry (R : Session → Session → Prop) (g g' : GuardState) : Prop := R g.session g'.session

instance {R : Session → Session → Prop} [Closed R] : Closed (OnRegistry R) where
  refl g := Closed.refl (R := R) g.session
  trans h h' := Closed.trans (R := R) h h'

theorem liftRegistry_within {R : Session → Session → Prop} {m : RegM α} (h : Within R m) :
    Within (OnRegistry R) (liftRegistry m) := by
  intro g
  rw [final_liftRegistry]
  exact h g.session

theorem ledgerStep_within {R : Session → Session → Prop} [Frame R]
    {step : Ledger → Time → Except Err Unit × Ledger} :
    Within (OnRegistry R) (ledgerStep step) := by
  intro g
  rw [final_ledgerStep]
  exact Frame.tick g.session

section Blocks

variable {ok : Text → Time → Prop} {t : Time}

theorem reading_within {f : Time → GuardM α}
    (h : ∀ now, t < now → Within (OnRegistry (Revises ok now)) (f now)) :
    Within (OnRegistry (Revises ok t)) (liftRegistry utcnow >>= f) := by
  intro g hg
  have htick : Running (g.clock 0) g.session.tick :=
    ⟨Later.strictMono (Frame.tick g.session) hg.clock, hg.clock Nat.zero_lt_one, hg.filed⟩
  have hrest := h (g.clock 0) hg.past { g with clock := fun n => g.clock (n + 1) } htick
  have hrun : (liftRegistry utcnow >>= f) g =
      f (g.clock 0) { g with clock := fun n => g.clock (n + 1) } :=
    bind_of_ok rfl
  rw [hrun]
  exact ⟨Closed.trans (Frame.tick g.session) hrest.later, hrest.filed, hrest.revision⟩

/-- A block changes what its body and its last operation change. -/
theorem withAssetLock_within {body : Asset → GuardProg (RegM α)}
    (h : ∀ a, a.assetId = id →
      Within (OnRegistry (Revises ok t)) (alone (body a) >>= liftRegistry)) :
    Within (OnRegistry (Revises ok t)) (alone (withAssetLock id body)) := by
  have enter : Within (OnRegistry (Revises ok t)) (alone (.perform (.enterLock id))) := by
    rw [alone_perform]
    exact liftRegistry_within Within.getAsset
  intro g hg
  rw [withAssetLock, alone_bind]
  refine Lib.final_bind (P := fun g' : GuardState => Revised ok g.session g'.session)
    (fun _ _ hraised => enter.error hraised hg) fun a g1 hentered => ?_
  rw [alone_perform] at hentered
  obtain ⟨_, hget, rfl⟩ := liftRegistry_eq_ok.mp hentered
  obtain ⟨get, rfl⟩ := getAsset_eq_ok.mp hget
  -- breaking the block off changes nothing more
  rw [alone, Prog.final_run_cleaningUp fun _ => rfl, Prog.run_bind]
  simp only [Prog.run_perform]
  exact h a (hg.filed id a get) g hg

/-- A statement that leaves the registry and the clock alone. -/
theorem apart_within {R : Session → Session → Prop} [Closed R] {m : GuardM α}
    (h : ∀ g, (final (m g)).session = g.session) : Within (OnRegistry R) m := by
  intro g
  unfold OnRegistry
  rw [h]
  exact Closed.refl g.session

end Blocks

/-! ### Writes -/

/-- An asset that is not the same up to reads has a revision after all that was in the past. -/
def Freshly (g g' : GuardState) : Prop := ∀ t, Revises (fun _ now => t < now) t g.session g'.session

instance : Closed Freshly where
  refl g _ := Closed.refl g.session
  trans h h' t := Closed.trans (h t) (h' t)

theorem freshly_of {m : GuardM α}
    (h : ∀ t, Within (OnRegistry (Revises (fun _ now => t < now) t)) m) : Within Freshly m :=
  fun g t => h t g

/-- Every turn of the program gives the assets that it changes new revisions. -/
abbrev TakesFreshTurns (p : GuardProg α) : Prop := p.Turns lockBlocks Cmd.sem Freshly

namespace TakesFreshTurns

theorem registry {m : RegM α} (h : ∀ t, Within (Revises (fun _ now => t < now) t) m) :
    TakesFreshTurns (registry m) := by
  refine Prog.Turns.atomic registry_atomic (freshly_of fun t => ?_)
  rw [AssetStore.registry, Prog.run_perform]
  exact liftRegistry_within (h t)

theorem ledger {c : Cmd Unit} (step : Ledger → Time → Except Err Unit × Ledger)
    (enters : ∀ r, lockBlocks.enters c r = false) (sem : Cmd.sem Unit c = ledgerStep step) :
    TakesFreshTurns (.perform c) := by
  refine Prog.Turns.atomic (Prog.Atomic.perform enters) (freshly_of fun t => ?_)
  rw [Prog.run_perform, sem]
  exact ledgerStep_within

theorem block {body : Asset → GuardProg (RegM α)}
    (stays : ∀ a, (body a).All Cmd.Stays fun _ => True)
    (h : ∀ t a, Within (OnRegistry (Revises (fun _ now => t < now) t))
      (alone (body a) >>= liftRegistry)) :
    TakesFreshTurns (withAssetLock id body) :=
  Prog.Turns.atomic (withAssetLock_atomic stays)
    (freshly_of fun t => withAssetLock_within fun a _ => h t a)

variable {env : Env} {cap : Capability} {name : Text} {operation : Operation}

theorem authorize : TakesFreshTurns (authorize cap operation name) := by
  refine Prog.Turns.bind (.ret _) fun parsed =>
    .bind (registry fun t => Within.utcnow) fun now => ?_
  refine .bind (.ret _) fun _ => .bind ?_ fun _ => .bind (.ret _) fun _ => .ret _
  exact ledger (fun l now => l.assertUnused cap now) (fun _ => rfl) rfl

theorem uploadLocked {location : ObjectStoreLocation} {data : List UInt8} {opts : WriteOptions} :
    TakesFreshTurns (uploadLocked env cap id location data opts) := by
  refine block (fun a => .bind .ret fun _ _ => .bind (.perform fun _ => rfl) fun _ _ => .ret)
    fun t a => ?_
  simp only [alone_bind, alone_check, alone_perform, alone_pure, bind_assoc, pure_bind]
  exact Within.bind Within.attempt fun _ => Within.bind (apart_within fun _ => rfl) fun stat =>
    liftRegistry_within (Revises.commitAsset fun _ _ h => h)

theorem fenceUpload : TakesFreshTurns (fenceUpload id) := by
  refine block (fun a => .ite (.bind (.perform fun _ => rfl) fun _ _ => .ret) .ret) fun t a => ?_
  split
  · simp only [alone_bind, alone_registry, alone_pure, bind_assoc, pure_bind]
    exact reading_within fun now hpast =>
      liftRegistry_within (Within.bind (Revises.lifecycleUpdate hpast le_rfl) fun _ => Within.pure)
  · simp only [alone_pure, pure_bind]
    exact liftRegistry_within Within.pure

theorem purgeUpload {location : ObjectStoreLocation} :
    TakesFreshTurns (purgeUpload id location) := by
  refine block (fun a => .ite .ret (.bind (.perform fun _ => rfl) fun _ _ =>
    .bind (.perform fun _ => rfl) fun _ _ => .ret)) fun t a => ?_
  split
  · simp only [alone_pure, pure_bind]
    exact liftRegistry_within Within.pure
  · simp only [alone_bind, alone_perform, alone_registry, alone_pure, bind_assoc, pure_bind]
    exact Within.bind (apart_within fun _ => rfl) fun _ => reading_within fun now hpast =>
      liftRegistry_within (Within.bind (Revises.lifecycleUpdate hpast le_rfl) fun _ => Within.pure)

/-- A write gives the assets that it changes new revisions, in its cleanup too. -/
theorem writeObject {newId : Text} {data : List UInt8} {opts : WriteOptions} :
    TakesFreshTurns (writeObject env newId cap name data opts) := by
  refine Prog.Turns.bind authorize fun parsed => .bind ?_ fun pending =>
    .bind (.ret _) fun location => ?_
  · refine Prog.Turns.atomic (Prog.Atomic.perform fun _ => rfl) (freshly_of fun t => ?_)
    rw [Prog.run_perform]
    exact liftRegistry_within (Revises.reserveAsset fun _ _ h => h)
  · refine .bind (.cleaningUp uploadLocked ?_) fun asset => .bind ?_ fun _ => .ret _
    · refine .tryCatch (.bind fenceUpload fun removable => ?_) fun _ => .ret _
      split
      · exact purgeUpload
      · exact .ret _
    · exact ledger (fun l now => l.recordSuccessfulUse cap now) (fun _ => rfl) rfl

end TakesFreshTurns

end AssetStore
