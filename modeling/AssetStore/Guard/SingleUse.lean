import AssetStore.Guard.Confinement
import AssetStore.Registry.Clock
import Mathlib

/-! Single use under concurrency. Any number of calls are in progress at once, and each statement of
a call is one step. A call that presents a single-use capability records its use as its last
statement; the ledger forgets a use when the capability has expired. -/

namespace AssetStore

open Lib

/-- A call of the guard. -/
inductive Call
  | readBytes (cap : Capability) (aliasName : Text)
  | writeObject (env : Env) (newId : Text) (cap : Capability) (aliasName : Text)
      (data : List UInt8) (opts : WriteOptions)
  | pruneConsumedCapabilities

def Call.prog : Call → GuardProg Unit
  | .readBytes cap aliasName => do
    let _ ← AssetStore.readBytes cap aliasName
  | .writeObject env newId cap aliasName data opts => do
    let _ ← AssetStore.writeObject env newId cap aliasName data opts
  | .pruneConsumedCapabilities => AssetStore.pruneConsumedCapabilities

/-- The single-use capability with this id and expiry. -/
def Capability.Is (id : Text) (expiry : Time) (cap : Capability) : Prop :=
  cap.capabilityId = id ∧ cap.expiresAt = expiry ∧ cap.singleUse = true

instance (id : Text) (expiry : Time) (cap : Capability) : Decidable (cap.Is id expiry) := by
  unfold Capability.Is
  infer_instance

/-- The call presents the capability. -/
def Call.Presents (id : Text) (expiry : Time) : Call → Prop
  | .readBytes cap _ => cap.Is id expiry
  | .writeObject _ _ cap _ _ _ => cap.Is id expiry
  | .pruneConsumedCapabilities => False

/-- The statement records a use of the capability. -/
def Cmd.Uses (id : Text) (expiry : Time) : (β : Type) → Cmd β → Prop
  | _, .recordSuccessfulUse cap => cap.Is id expiry
  | _, _ => False

instance (id : Text) (expiry : Time) {β : Type} (c : Cmd β) : Decidable (c.Uses id expiry) := by
  cases c with
  | recordSuccessfulUse cap => exact inferInstanceAs (Decidable (cap.Is id expiry))
  | _ => exact .isFalse not_false

/-- A use of the capability is recorded before it expires. -/
def RecordsInTime (id : Text) (expiry : Time) {ι β : Type} (_ : ι) (c : Cmd β) (g : GuardState) :
    Prop :=
  c.Uses id expiry → g.clock 0 < expiry

instance (id : Text) (expiry : Time) {ι β : Type} (i : ι) (c : Cmd β) (g : GuardState) :
    Decidable (RecordsInTime id expiry i c g) := by
  unfold RecordsInTime
  infer_instance

/-! ### What the calls consist of -/

/-- The statement takes clock readings and nothing else from the clock. -/
def Cmd.Timely : (β : Type) → Cmd β → Prop
  | _, .registry m => Within Later m
  | _, .closeLock _ m => Within Later m
  | _, _ => True

/-- The program consists of such statements. -/
abbrev Timely {α : Type} (p : GuardProg α) : Prop := p.All Cmd.Timely fun _ => True

theorem withAssetLock_timely {α : Type} {id : Text} {body : Asset → GuardProg (RegM α)}
    (h : ∀ a, (body a).All Cmd.Timely (Within Later)) : Timely (withAssetLock id body) := by
  refine .bind (.perform trivial) fun a _ => .cleaningUp ?_ (.perform trivial)
  exact .bind (h a) fun last hlast => .perform hlast

theorem authorize_timely {cap : Capability} {op : Operation} {aliasName : Text} :
    Timely (authorize cap op aliasName) :=
  .bind .ret fun _ _ => .bind (.perform Within.utcnow) fun _ _ => .bind .ret fun _ _ =>
    .bind (.perform trivial) fun _ _ => .bind .ret fun _ _ => .ret

theorem resolveForRead_timely {cap : Capability} {aliasName : Text} :
    Timely (resolveForRead cap aliasName) :=
  .bind authorize_timely fun _ _ => .bind (.perform Within.resolveAlias) fun _ _ =>
    .bind .ret fun _ _ => .ret

theorem uploadLocked_timely {env : Env} {cap : Capability} {id : Text}
    {location : ObjectStoreLocation} {data : List UInt8} {opts : WriteOptions} :
    Timely (uploadLocked env cap id location data opts) :=
  withAssetLock_timely fun _ => .bind .ret fun _ _ => .bind (.perform trivial) fun _ _ =>
    .pure Later.commitAsset

theorem fenceUpload_timely {id : Text} : Timely (fenceUpload id) := by
  refine withAssetLock_timely fun current => .ite ?_ (.pure Within.pure)
  refine .bind (.perform Within.utcnow) fun _ _ => .pure ?_
  exact Within.bind Later.lifecycleUpdate fun _ => Within.pure

theorem purgeUpload_timely {id : Text} {location : ObjectStoreLocation} :
    Timely (purgeUpload id location) := by
  refine withAssetLock_timely fun fenced => .ite (.pure Within.pure) ?_
  refine .bind (.perform trivial) fun _ _ => .bind (.perform Within.utcnow) fun _ _ => .pure ?_
  exact Within.bind Later.lifecycleUpdate fun _ => Within.pure

theorem cleanupFailedUpload_timely {id : Text} {location : ObjectStoreLocation} :
    Timely (cleanupFailedUpload id location) :=
  .tryCatch (.bind fenceUpload_timely fun _ _ => .ite purgeUpload_timely .ret) fun _ => .ret

theorem readBytes_timely {cap : Capability} {aliasName : Text} : Timely (readBytes cap aliasName) :=
  .bind resolveForRead_timely fun _ _ => .bind (.perform trivial) fun _ _ =>
    .bind (.perform Later.recordRead) fun _ _ => .bind (.perform trivial) fun _ _ => .ret

theorem writeObject_timely {env : Env} {newId : Text} {cap : Capability} {aliasName : Text}
    {data : List UInt8} {opts : WriteOptions} :
    Timely (writeObject env newId cap aliasName data opts) :=
  .bind authorize_timely fun _ _ => .bind (.perform trivial) fun _ _ => .bind .ret fun _ _ =>
    .bind (.cleaningUp uploadLocked_timely cleanupFailedUpload_timely) fun _ _ =>
      .bind (.perform trivial) fun _ _ => .ret

theorem Call.prog_timely : ∀ call : Call, Timely call.prog
  | .readBytes .. => .bind readBytes_timely fun _ _ => .ret
  | .writeObject .. => .bind writeObject_timely fun _ _ => .ret
  | .pruneConsumedCapabilities => .perform trivial

/-- A call that presents the capability returns only after it has recorded a use. -/
theorem Call.prog_passes {id : Text} {expiry : Time} :
    ∀ {call : Call}, call.Presents id expiry → call.prog.Passes (Cmd.Uses id expiry)
  | .readBytes .., h =>
    .bind_left (.bind_right fun _ => .bind_right fun _ => .bind_right fun _ =>
      .bind_left (.perform h))
  | .writeObject .., h =>
    .bind_left (.bind_right fun _ => .bind_right fun _ => .bind_right fun _ => .bind_right fun _ =>
      .bind_left (.perform h))

/-! ### What a statement does to the ledger -/

section Steps

variable {ι β : Type} {i : ι} {c : Cmd β} {g g' : GuardState} {r : Except Err β} {id : Text}
  {expiry : Time}

theorem interleaved_exec (h : (interleaved ι).exec i c g = some (r, g')) :
    g' = final (c.sem _ g) := by
  simp only [interleaved] at h
  cases hc : c.sem _ g <;> simp_all

theorem final_getStored {location : ObjectStoreLocation} : final (getStored location g) = g := by
  unfold getStored
  cases g.store.get location <;> rfl

/-- A statement leaves the ledger alone, or prunes it at the next reading and then adds at most one
id that it does not hold. -/
theorem sem_ledger (timely : c.Timely) :
    (∃ n, (final (c.sem _ g)).clock = fun k => g.clock (n + k)) ∧
      ((final (c.sem _ g)).ledger = g.ledger ∨
        (final (c.sem _ g)).clock = (fun k => g.clock (k + 1)) ∧
          ((final (c.sem _ g)).ledger = g.ledger.prune (g.clock 0) ∨
            ∃ other t, (g.ledger.prune (g.clock 0)).get other = none ∧
              (final (c.sem _ g)).ledger = (g.ledger.prune (g.clock 0)).set other t)) := by
  have registry : ∀ {m : RegM β}, Within Later m →
      (∃ n, (final (liftRegistry m g)).clock = fun k => g.clock (n + k)) ∧
        (final (liftRegistry m g)).ledger = g.ledger := by
    intro m hm
    rw [final_liftRegistry]
    exact ⟨hm g.session, rfl⟩
  have next : ∀ g' : GuardState, g'.clock = (fun k => g.clock (k + 1)) →
      ∃ n, g'.clock = fun k => g.clock (n + k) := by
    intro g' h
    refine ⟨1, ?_⟩
    rw [h]
    funext k
    rw [Nat.add_comm]
  cases c with
  | assertUnused cap =>
    rw [Cmd.sem, final_ledgerStep]
    exact ⟨next _ rfl, .inr ⟨rfl, .inl rfl⟩⟩
  | recordSuccessfulUse cap =>
    rw [Cmd.sem, final_ledgerStep]
    refine ⟨next _ rfl, .inr ⟨rfl, ?_⟩⟩
    by_cases hsingle : cap.singleUse = true
    · cases hget : (g.ledger.prune (g.clock 0)).get cap.capabilityId with
      | none =>
        refine .inr ⟨_, cap.expiresAt, hget, ?_⟩
        simp [Ledger.recordSuccessfulUse, hsingle, hget]
      | some t =>
        refine .inl ?_
        simp [Ledger.recordSuccessfulUse, hsingle, hget]
    · refine .inl ?_
      simp [Ledger.recordSuccessfulUse, hsingle]
  | pruneExpired =>
    rw [Cmd.sem, final_ledgerStep]
    exact ⟨next _ rfl, .inr ⟨rfl, .inl rfl⟩⟩
  | reserveAsset env newId req =>
    obtain ⟨hclock, hledger⟩ := registry
      (m := AssetStore.reserveAsset env newId req) Later.reserveAsset
    exact ⟨hclock, .inl hledger⟩
  | registry m =>
    obtain ⟨hclock, hledger⟩ := registry timely
    exact ⟨hclock, .inl hledger⟩
  | enterLock assetId =>
    obtain ⟨hclock, hledger⟩ := registry (m := getAsset assetId) Within.getAsset
    exact ⟨hclock, .inl hledger⟩
  | closeLock assetId m =>
    obtain ⟨hclock, hledger⟩ := registry timely
    exact ⟨hclock, .inl hledger⟩
  | breakLock assetId => exact ⟨⟨0, by simp [Cmd.sem]⟩, .inl rfl⟩
  | putObject env location data => exact ⟨⟨0, by simp [Cmd.sem]⟩, .inl rfl⟩
  | getObject location =>
    rw [Cmd.sem, final_getStored]
    exact ⟨⟨0, by simp⟩, .inl rfl⟩
  | statObject env location => exact ⟨⟨0, by simp [Cmd.sem]⟩, .inl rfl⟩
  | deleteObject location => exact ⟨⟨0, by simp [Cmd.sem]⟩, .inl rfl⟩

/-- A recorded use stays in the ledger until the capability expires. -/
def Spent (id : Text) (expiry : Time) (g : GuardState) : Prop :=
  g.ledger.get id = some expiry ∨ expiry ≤ g.clock 0

theorem sem_monotone (timely : c.Timely) (mono : Monotone g.clock) :
    Monotone (final (c.sem _ g)).clock := by
  obtain ⟨⟨n, hclock⟩, -⟩ := sem_ledger (g := g) timely
  rw [hclock]
  exact mono.comp fun k k' h => Nat.add_le_add_left h n

theorem sem_spent (timely : c.Timely) (mono : Monotone g.clock) (h : Spent id expiry g) :
    Spent id expiry (final (c.sem _ g)) := by
  obtain ⟨⟨n, hclock⟩, hledger⟩ := sem_ledger (g := g) timely
  rcases h with hget | hexpired
  · by_cases hnow : g.clock 0 < expiry
    · -- the use survives the pruning at this reading
      refine .inl ?_
      have hpruned : (g.ledger.prune (g.clock 0)).get id = some expiry := by
        simp [Ledger.prune, hget, hnow]
      rcases hledger with hsame | ⟨-, hsame | ⟨other, t, hfree, hsame⟩⟩
      · rwa [hsame]
      · rwa [hsame]
      · have hne : id ≠ other := fun e => by rw [← e, hpruned] at hfree; cases hfree
        rwa [hsame, Dict.get_set_ne _ _ hne]
    · refine .inr ((not_lt.mp hnow).trans ?_)
      rw [hclock]
      exact mono (Nat.zero_le _)
  · refine .inr (hexpired.trans ?_)
    rw [hclock]
    exact mono (Nat.zero_le _)

/-- A use that is recorded in time was not recorded before, and is now. -/
theorem sem_uses {b : β} (uses : c.Uses id expiry) (h : c.sem _ g = .ok b g')
    (intime : g.clock 0 < expiry) : ¬Spent id expiry g ∧ Spent id expiry g' := by
  cases c with
  | recordSuccessfulUse cap =>
    obtain ⟨rfl, rfl, hsingle⟩ := uses
    rw [Cmd.sem, ledgerStep_eq_ok] at h
    obtain ⟨hok, rfl⟩ := h
    cases hget : (g.ledger.prune (g.clock 0)).get cap.capabilityId with
    | some t => simp [Ledger.recordSuccessfulUse, hsingle, hget] at hok
    | none =>
      refine ⟨?_, .inl ?_⟩
      · rintro (hspent | hexpired)
        · simp only [Ledger.prune, Dict.get_filter, hspent, Option.filter_some, decide_eq_true_eq,
            intime, if_true, reduceCtorEq] at hget
        · exact absurd intime (not_lt.mpr hexpired)
      · simp [Ledger.recordSuccessfulUse, hsingle, hget]
  | _ => exact uses.elim

end Steps

/-- Some readings were taken. -/
def GuardLater (g g' : GuardState) : Prop := ∃ n, g'.clock = fun k => g.clock (n + k)

instance : Closed GuardLater where
  refl g := ⟨0, by simp⟩
  trans := by
    rintro g g' g'' ⟨n, h⟩ ⟨n', h'⟩
    refine ⟨n + n', ?_⟩
    rw [h', h]
    funext k
    rw [Nat.add_assoc]

theorem Timely.alone_later {α : Type} {p : GuardProg α} (h : Timely p) :
    Within GuardLater (alone p) :=
  (h.mono fun _ _ hc g => (sem_ledger (g := g) hc).1).run_within

/-! ### Runs -/

section Runs

variable {ι : Type} {id : Text} {expiry : Time} {calls : ι → Call} {g g' : GuardState}
  {T T' : ι → GuardProg Unit}

/-- No call has recorded a use yet, or one has and the ledger knows. -/
structure AtMostOneUse (id : Text) (expiry : Time) (calls : ι → Call) (g : GuardState)
    (T : ι → GuardProg Unit) : Prop where
  monotone : Monotone g.clock
  timely : ∀ i, Timely (T i)
  uses : ∃ user : Option ι, (∀ i, some i ≠ user → (calls i).Presents id expiry →
      (T i).Passes (Cmd.Uses id expiry)) ∧ (user ≠ none → Spent id expiry g)

theorem AtMostOneUse.start (mono : Monotone g.clock) :
    AtMostOneUse id expiry calls g fun i => (calls i).prog where
  monotone := mono
  timely i := (calls i).prog_timely
  uses := ⟨none, fun _ _ h => Call.prog_passes h, fun h => absurd rfl h⟩

variable [DecidableEq ι]

/-- A thread that goes on without a recorded use changes nothing for the others. -/
theorem passes_update {user : Option ι} {i : ι} {p : GuardProg Unit}
    (others : ∀ j, some j ≠ user → (calls j).Presents id expiry → (T j).Passes (Cmd.Uses id expiry))
    (own : some i ≠ user → (calls i).Presents id expiry → p.Passes (Cmd.Uses id expiry)) :
    ∀ j, some j ≠ user → (calls j).Presents id expiry →
      (Function.update T i p j).Passes (Cmd.Uses id expiry) := by
  intro j hj hp
  by_cases hji : j = i
  · subst hji
    rw [Function.update_self]
    exact own hj hp
  · rw [Function.update_of_ne hji]
    exact others j hj hp

theorem timely_update {i : ι} {p : GuardProg Unit} (all : ∀ j, Timely (T j)) (hp : Timely p) :
    ∀ j, Timely (Function.update T i p j) := by
  intro j
  by_cases hji : j = i
  · subst hji
    rwa [Function.update_self]
  · rw [Function.update_of_ne hji]
    exact all j

theorem AtMostOneUse.step (h : AtMostOneUse id expiry calls g T)
    (hstep : (interleaved ι).Step (RecordsInTime id expiry) (g, T) (g', T')) :
    AtMostOneUse id expiry calls g' T' := by
  obtain ⟨user, others, spent⟩ := h.uses
  cases hstep with
  | @exec _ _ _ i β cmd k r next meets done =>
    have hall := h.timely i
    rw [next] at hall
    have hs' := interleaved_exec done
    refine ⟨hs' ▸ sem_monotone hall.1 h.monotone, timely_update h.timely (hall.2 r), ?_⟩
    by_cases huse : cmd.Uses id expiry ∧ ∃ b, r = .ok b
    · -- the only step that a thread may take without keeping its obligation
      obtain ⟨uses, b, rfl⟩ := huse
      have hsem : cmd.sem _ g = .ok b g' := by
        simp only [interleaved] at done
        cases hc : cmd.sem _ g <;> simp_all
      obtain ⟨hfirst, hspent⟩ := sem_uses uses hsem (meets uses)
      have hnone : user = none := by
        by_contra hne
        exact hfirst (spent hne)
      subst hnone
      exact ⟨some i, passes_update (fun j hj => others j (by simp)) fun hj => absurd rfl hj,
        fun _ => hspent⟩
    · refine ⟨user, passes_update others fun hi hp => ?_, fun hne => ?_⟩
      · have hpasses := others i hi hp
        rw [next] at hpasses
        exact (hpasses r).resolve_left huse
      · rw [hs']
        exact sem_spent hall.1 h.monotone (spent hne)
  | @raise _ _ i β cmd k e next =>
    have hall := h.timely i
    rw [next] at hall
    refine ⟨h.monotone, timely_update h.timely (hall.2 _), user, passes_update others ?_, spent⟩
    intro hi hp
    have hpasses := others i hi hp
    rw [next] at hpasses
    exact (hpasses (.error e)).resolve_left fun ⟨_, _, hb⟩ => by cases hb
  | @interrupt _ _ _ i β cmd k r e next _ done =>
    have hall := h.timely i
    rw [next] at hall
    have hs' := interleaved_exec done
    refine ⟨hs' ▸ sem_monotone hall.1 h.monotone, timely_update h.timely (hall.2 _), user,
      passes_update others ?_, fun hne => hs' ▸ sem_spent hall.1 h.monotone (spent hne)⟩
    intro hi hp
    have hpasses := others i hi hp
    rw [next] at hpasses
    exact (hpasses (.error e)).resolve_left fun ⟨_, _, hb⟩ => by cases hb
  | crash i e =>
    exact ⟨h.monotone, timely_update h.timely .ret, user, passes_update others fun _ _ => ⟨e, rfl⟩,
      spent⟩

/-- In every run whose uses of a capability are recorded before it expires, at most one of the calls
that present it returns. -/
theorem single_use_of_runs (mono : Monotone g.clock)
    (run : (interleaved ι).Runs (RecordsInTime id expiry) (g, fun i => (calls i).prog) (g', T)) :
    ∀ i j, (calls i).Presents id expiry → (calls j).Presents id expiry →
      (T i).hasReturned = true → (T j).hasReturned = true → i = j := by
  have hinv : AtMostOneUse id expiry calls g' T := by
    generalize hc : (g', T) = c at run
    induction run generalizing g' T with
    | refl =>
      obtain ⟨rfl, rfl⟩ := Prod.mk.inj hc
      exact .start mono
    | tail _ hstep ih =>
      subst hc
      exact (ih rfl).step hstep
  obtain ⟨user, others, -⟩ := hinv.uses
  have huser : ∀ i, (calls i).Presents id expiry → (T i).hasReturned = true → some i = user := by
    intro i hp hret
    by_contra hne
    have := (others i hne hp).not_hasReturned
    rw [hret] at this
    cases this
  intro i j hi hj hri hrj
  exact Option.some.inj ((huser i hi hri).trans (huser j hj hrj).symm)

end Runs

/-- A guard whose registry holds the object `cache/m/x`. -/
def storedGuard (clock : Nat → Time) : GuardState :=
  { final (alone (writeObject plainEnv "a1".toList (fetcherGrant "cache/m".toList plainScope_valid)
      "cache/m/x".toList []) emptyGuard) with clock }

/-- A single-use capability to read the object, until the instant 60. -/
def onceGrant : Capability :=
  { capabilityId := "c2".toList, operation := .read, scopePrefix := "cache/m".toList,
    expiresAt := 60
    callerServiceId := "fetcher".toList, singleUse := true, scope_valid := by decide }

def readOnce : Call := .readBytes onceGrant "cache/m/x".toList

/-- Of two reads, the second is overtaken before it records its use. -/
def overtaking : List Bool := List.replicate 5 false ++ List.replicate 6 true ++ [false]

/-- The clock jumps past the expiry after nine readings. -/
def jumpingClock (n : Nat) : Time := if n < 9 then 0 else 60

theorem jumpingClock_monotone : Monotone jumpingClock := by
  intro a b h
  unfold jumpingClock
  by_cases ha : a < 9
  · by_cases hb : b < 9 <;> simp [ha, hb]
  · simp [ha, show ¬b < 9 by omega]

theorem single_use_stored :
    ∃ g T, (interleaved Bool).Runs (RecordsInTime "c2".toList 60)
        (storedGuard fun _ => 0, fun _ => readOnce.prog) (g, T) ∧
      (T true).hasReturned = true ∧ (T false).hasReturned = false := by
  have hplay : ((interleaved Bool).play (fun i c g => decide (RecordsInTime "c2".toList 60 i c g))
      overtaking (storedGuard fun _ => 0, fun _ => readOnce.prog)).any
        (fun c => (c.2 true).hasReturned) = true := by
    decide +kernel
  obtain ⟨g, T, hrun, hret⟩ := Machine.exists_runs_of_play hplay
  have hrun' : (interleaved Bool).Runs (RecordsInTime "c2".toList 60)
      (storedGuard fun _ => 0, fun _ => readOnce.prog) (g, T) :=
    hrun.mono fun _ _ _ h => of_decide_eq_true h
  have hpresents : readOnce.Presents "c2".toList 60 := ⟨rfl, rfl, rfl⟩
  refine ⟨g, T, hrun', hret, ?_⟩
  by_contra hfalse
  have heq := single_use_of_runs (fun _ _ _ => le_refl _) hrun' true false hpresents hpresents hret
    (by simpa using hfalse)
  cases heq

/-- Two calls that record their use on both sides of the expiry both return. -/
theorem single_use_twice :
    Monotone jumpingClock ∧ readOnce.Presents "c2".toList 60 ∧
      ∃ g T, (interleaved Bool).Runs (fun _ _ _ => True)
          (storedGuard jumpingClock, fun _ => readOnce.prog) (g, T) ∧
        (T false).hasReturned = true ∧ (T true).hasReturned = true := by
  have hplay : ((interleaved Bool).play (fun _ _ _ => true) overtaking
      (storedGuard jumpingClock, fun _ => readOnce.prog)).any
        (fun c => (c.2 false).hasReturned && (c.2 true).hasReturned) = true := by
    decide +kernel
  obtain ⟨g, T, hrun, hret⟩ := Machine.exists_runs_of_play hplay
  refine ⟨jumpingClock_monotone, ⟨rfl, rfl, rfl⟩, g, T, hrun.mono fun _ _ _ _ => trivial, ?_⟩
  simpa using hret

end AssetStore
