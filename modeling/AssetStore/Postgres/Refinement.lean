import AssetStore.Postgres.Aliases
import AssetStore.Registry.Accounting
import AssetStore.Registry.Citations

/-! The Postgres registry refines the one in memory. Whatever calls are made one after the other,
both registries answer alike and keep the same audit log, and a call that fails leaves the tables as
they were. -/

namespace AssetStore.Postgres

open Lib

/-! ### Rollback -/

/-- An error leaves the tables as they were. -/
def RollsBack {α : Type} (m : SqlM α) : Prop :=
  ∀ {t t' : UnitOfWork} {e : Failure}, m t = .error e t' → t'.db = t.db

theorem RollsBack.transactional {α : Type} (m : SqlM α) : RollsBack (transactional m) := by
  intro t t' e h
  unfold Postgres.transactional at h
  cases hm : m t with
  | ok a s =>
    rw [hm] at h
    cases h
  | error e s =>
    rw [hm] at h
    cases h
    rfl

theorem RollsBack.map {α β : Type} {m : SqlM α} (h : RollsBack m) (f : α → β) :
    RollsBack (m >>= fun a => pure (f a)) := by
  intro t t' e he
  cases hm : m t with
  | ok a s =>
    rw [bind_of_ok hm] at he
    cases he
  | error e s =>
    rw [bind_of_error hm] at he
    cases he
    exact h hm

theorem RollsBack.checked {α : Type} {m : SqlM α} (h : RollsBack m) : RollsBack (checked m) := by
  intro t t' e he
  unfold Postgres.checked at he
  cases hm : m t with
  | ok a s =>
    simp only [hm] at he
    split at he
    · cases he
    · cases he
      rfl
  | error e' s =>
    simp only [hm] at he
    cases he
    exact h hm

/-- No operation leaves a part of its changes behind. -/
theorem run_rollsBack (env : Env) (order : RowOrder) (op : Op) : RollsBack (run env order op) := by
  refine RollsBack.checked ?_
  cases op <;> exact RollsBack.map (RollsBack.transactional _) _

/-- Unless a value does not fit its column, a call is its statements. -/
theorem run_eq_perform {env : Env} {order : RowOrder} {op : Op} {t : UnitOfWork}
    (fits : ∀ t', run env order op t ≠ .error .dataError t') :
    run env order op t = perform env order op t := by
  unfold run checked at fits ⊢
  cases hm : perform env order op t with
  | ok reply t' =>
    simp only [hm] at fits ⊢
    split
    · rfl
    · rename_i hover
      exact (fits _ (if_neg hover)).elim
  | error e t' => rfl

/-- What a call stores fits its columns. -/
theorem fits_of_run {env : Env} {order : RowOrder} {op : Op} {reply : Reply} {t t' : UnitOfWork}
    (h : run env order op t = .ok reply t') : t'.db.Fits := by
  unfold run checked at h
  cases hm : perform env order op t with
  | ok a s =>
    simp only [hm] at h
    split at h
    · cases h
      assumption
    · cases h
  | error e s =>
    simp only [hm] at h
    cases h

/-! ### One call -/

/-- The calls on which both registries are compared: paths normalize to fixed points, a reservation
is plain and its id is new and not blank, a read is recorded for an asset that exists, and the space
of a query for reserved bytes is one unless there are assets to compare it with. -/
def Admissible (db : Database) : Op → Prop
  | .reserveAsset newId req => Plain req ∧ db.assets.get newId = none ∧ stripSpace newId ≠ []
  | .attachAlias _ name _ _ => Settled name
  | .resolveAlias _ name => Settled name
  | .detachAlias _ name _ => Settled name
  | .detachMutableAlias _ name _ => Settled name
  | .rebindAlias _ name _ _ => Settled name
  | .setPartitionQuota _ pid _ _ _ _ => Settled pid
  | .reservedUploadBytes space => (∃ s, normalizeSpace space = .ok s) ∨ db.assets.values ≠ []
  | .recordRead id => ∃ row, db.assets.get id = some row
  | _ => True

/-- The replies are equal, but for the order in which assets are listed. -/
def SameReply : Op → Reply → Reply → Prop
  | .listAssets, reply, reply' => ∃ as as', reply = .assets as ∧ reply' = .assets as' ∧ as.Perm as'
  | _, reply, reply' => reply = reply'

theorem Agrees.reply {α β : Type} {now : Time} {grace : Int} {origin : Database} {R : α → β → Prop}
    {S : Reply → Reply → Prop} {x : RegM α} {y : SqlM β} {f : α → Reply} {g : β → Reply}
    {s : Session} {t : UnitOfWork}
    (h : Agrees now grace origin R (x s) (y t)) (same : ∀ a b, R a b → S (f a) (g b)) :
    Agrees now grace origin S ((x >>= fun a => pure (f a)) s) ((y >>= fun b => pure (g b)) t) :=
  h.bind fun a b _ _ hR h' => .returned (same a b hR) h'

/-- The statements of each operation of the interface do what the registry in memory does. -/
theorem perform_agrees {now : Time} {grace : Int} {r : Registry} {db : Database} {env : Env}
    {order : RowOrder} {op : Op}
    (h : Mirrors now grace r db) (ok : Admissible db op)
    (dated : ¬op.Overflows (fun _ => now) grace) :
    Agrees now grace db (SameReply op) (op.run env (inMemory now r))
      (perform env order op (inUnit now grace db)) := by
  have heq : ∀ {α : Type} {f : α → Reply} (a b : α), a = b → f a = f b :=
    fun _ _ hab => congrArg _ hab
  cases op with
  | recordCapabilityIssue => exact (recordCapabilityIssue_agrees h).reply fun _ _ _ => rfl
  | reserveAsset => exact (reserveAsset_agrees h ok.1 ok.2.1 ok.2.2).reply heq
  | attachAlias => exact (attachAlias_agrees h ok).reply heq
  | commitAsset => exact (commitAsset_agrees h).reply heq
  | updateAnnotations => exact (updateAnnotations_agrees h).reply heq
  | resolveAlias => exact (resolveAlias_agrees h ok).reply heq
  | detachAlias => exact (detachAlias_agrees h ok dated).reply fun _ _ _ => rfl
  | detachMutableAlias => exact (detachMutableAlias_agrees h ok).reply heq
  | rebindAlias => exact (rebindAlias_agrees h ok).reply heq
  | expireAsset => exact (expireAsset_agrees h).reply heq
  | deleteAsset => exact (deleteAsset_agrees h).reply heq
  | setEvictionPolicy => exact (setEvictionPolicy_agrees h).reply heq
  | setPartitionQuota => exact (setPartitionQuota_agrees h ok).reply heq
  | setBucketQuota => exact (setBucketQuota_agrees h).reply heq
  | getPartitionQuota => exact (getPartitionQuota_agrees h).reply heq
  | getBucketQuota => exact (getBucketQuota_agrees h).reply heq
  | reservedUploadBytes => exact (reservedUploadBytes_agrees h ok).reply heq
  | listAssets => exact (listAssets_agrees h).reply fun a b hab => ⟨a, b, rfl, rfl, hab⟩
  | recordRead => exact (recordRead_agrees h ok).reply fun _ _ _ => rfl
  | lifecycleUpdate => exact (lifecycleUpdate_agrees h).reply heq
  | recentAudit => exact (recentAudit_agrees h).reply heq
  | getAsset => exact (getAsset_agrees h).reply heq
  | queryAssets => exact (queryAssets_agrees h).reply heq
  | setAssetTtl => exact (setAssetTtl_agrees h).reply heq
  | auditEvents => exact (auditEvents_agrees h).reply heq

/-! ### Runs -/

/-- The class of what was raised; an exception of the driver has none. -/
def Failure.cls : Failure → Option ErrorClass
  | .domain e => some e.cls
  | .uniqueViolation | .dataError => none

/-- What the caller of an operation sees. -/
abbrev Outcome := Except (Option ErrorClass) Reply

/-- Equal replies, or errors of one class. -/
def SameOutcome (op : Op) : Outcome → Outcome → Prop
  | .ok reply, .ok reply' => SameReply op reply reply'
  | .error cls, .error cls' => cls = cls'
  | _, _ => False

/-- A registry after some calls, with the instant of the last one and what each of them came to. -/
structure Served (S : Type) where
  last : Time
  state : S
  outcomes : List (Op × Outcome) := []

/-- One call on the registry in memory. -/
def serveMemory (env : Env) (s : Served Registry) (call : Op × Time) : Served Registry :=
  match call.1.run env (inMemory call.2 s.state) with
  | .ok reply s' => ⟨call.2, s'.reg, s.outcomes ++ [(call.1, .ok reply)]⟩
  | .error e s' => ⟨call.2, s'.reg, s.outcomes ++ [(call.1, .error (some e.cls))]⟩

/-- One call on the tables. -/
def serve (env : Env) (order : RowOrder) (grace : Int) (t : Served Database) (call : Op × Time) :
    Served Database :=
  match run env order call.1 (inUnit call.2 grace t.state) with
  | .ok reply t' => ⟨call.2, t'.db, t.outcomes ++ [(call.1, .ok reply)]⟩
  | .error e t' => ⟨call.2, t'.db, t.outcomes ++ [(call.1, .error e.cls)]⟩

/-- The clock does not go back, and the call is one of those compared: no grace period ends after
the last `datetime`, and every value fits its column. -/
structure Allowed (env : Env) (order : RowOrder) (grace : Int) (t : Served Database)
    (call : Op × Time) :
    Prop where
  onward : t.last ≤ call.2
  admissible : Admissible t.state call.1
  dated : ¬call.1.Overflows (fun _ => call.2) grace
  texts : ∀ s ∈ parameters call.1, IsText s
  fits : ∀ t', run env order call.1 (inUnit call.2 grace t.state) ≠ .error .dataError t'

/-- Whatever calls are made, the tables hold only what their columns hold. -/
theorem serve_fits {env : Env} {order : RowOrder} {grace : Int} {t : Served Database}
    {call : Op × Time}
    (h : t.state.Fits) : (serve env order grace t call).state.Fits := by
  unfold serve
  cases hrun : run env order call.1 (inUnit call.2 grace t.state) with
  | ok reply t' => exact fits_of_run hrun
  | error e t' =>
    change t'.db.Fits
    rw [run_rollsBack env order call.1 hrun]
    exact h

/-- The tables after a run stand for the registry after it, and the callers saw the same. -/
structure Refines (grace : Int) (s : Served Registry) (t : Served Database) : Prop where
  mirrors : Mirrors t.last grace s.state t.state
  outcomes : List.Forall₂ (fun x y => x.1 = y.1 ∧ SameOutcome x.1 x.2 y.2) s.outcomes t.outcomes

theorem Refines.call {env : Env} {order : RowOrder} {grace : Int} {s : Served Registry}
    {t : Served Database}
    {call : Op × Time} (h : Refines grace s t) (ok : Allowed env order grace t call) :
    Refines grace (serveMemory env s call) (serve env order grace t call) := by
  have hagree :
      Agrees call.2 grace t.state (SameReply call.1) (call.1.run env (inMemory call.2 s.state))
      (run env order call.1 (inUnit call.2 grace t.state)) := by
    rw [run_eq_perform ok.fits]
    exact perform_agrees (h.mirrors.mono ok.onward) ok.admissible ok.dated
  unfold serveMemory serve
  cases hs : call.1.run env (inMemory call.2 s.state) with
  | ok reply s' =>
    cases ht : run env order call.1 (inUnit call.2 grace t.state) with
    | ok reply' t' =>
      rw [hs, ht] at hagree
      cases hagree with
      | returned hok =>
        obtain ⟨hsame, r, db, rfl, rfl, hmirrors⟩ := hok
        exact ⟨hmirrors, List.rel_append h.outcomes (.cons ⟨rfl, hsame⟩ .nil)⟩
    | error e t' =>
      rw [hs, ht] at hagree
      cases hagree
  | error e s' =>
    cases ht : run env order call.1 (inUnit call.2 grace t.state) with
    | ok reply' t' =>
      rw [hs, ht] at hagree
      cases hagree
    | error e' t' =>
      rw [hs, ht] at hagree
      cases hagree with
      | raised herr =>
        obtain ⟨⟨d, rfl, hcls⟩, r, rfl, hmirrors⟩ := herr
        have hafter : Mirrors call.2 grace r t'.db := by
          rw [run_rollsBack env order call.1 ht]
          exact hmirrors
        exact ⟨hafter, List.rel_append h.outcomes (.cons ⟨rfl, congrArg some hcls⟩ .nil)⟩

/-- The registries before their first call. -/
theorem Refines.start (start : Time) (grace : Int) :
    Refines grace ⟨start, .initial grace, []⟩ ⟨start, {}, []⟩ :=
  ⟨.initial start grace, .nil⟩

/-- A run on the tables is a run of the registry in memory. -/
theorem Refines.run {env : Env} {order : RowOrder} {grace : Int} {s : Served Registry}
    {t : Served Database}
    {calls : List (Op × Time)} (h : Refines grace s t)
    (allowed : AllowedAlong (serve env order grace) (Allowed env order grace) t calls) :
    Refines grace (calls.foldl (serveMemory env) s) (calls.foldl (serve env order grace) t) :=
  foldl_related (fun _ _ _ h ok => h.call ok) calls s t h allowed

theorem serveMemory_state (env : Env) (s : Served Registry) (call : Op × Time) :
    (serveMemory env s call).state = call.1.exec env (fun _ => call.2) s.state := by
  unfold serveMemory Op.exec
  cases call.1.run env (inMemory call.2 s.state) <;> rfl

theorem Refines.fresh {env : Env} {order : RowOrder} {grace : Int} {s : Served Registry}
    {t : Served Database} {call : Op × Time} (h : Refines grace s t)
    (ok : Allowed env order grace t call) :
    call.1.Fresh s.state := by
  obtain ⟨op, now⟩ := call
  cases op with
  | reserveAsset => exact h.mirrors.get_none ok.admissible.2.1
  | _ => trivial

theorem Refines.runs {env : Env} {order : RowOrder} {grace : Int} :
    ∀ {calls : List (Op × Time)} {s : Served Registry}
    {t : Served Database}, Refines grace s t →
      AllowedAlong (serve env order grace) (Allowed env order grace) t calls →
    Runs env s.state (timed calls) (calls.foldl (serveMemory env) s).state
  | [], _, _, _, _ => .nil
  | call :: rest, s, t, h, allowed => by
    refine Runs.cons (h.fresh allowed.1) ?_
    rw [← serveMemory_state]
    exact (h.call allowed.1).runs allowed.2

/-- Over every run, the callers of the Postgres registry see what the callers of the one in memory
see, and the audit logs are equal; a call that fails leaves the tables as they were. -/
theorem postgres_like_memory {env : Env} {order : RowOrder} {grace : Int} {start : Time}
    {calls : List (Op × Time)}
    (allowed : AllowedAlong (serve env order grace) (Allowed env order grace)
      ⟨start, {}, []⟩ calls) :
    List.Forall₂ (fun x y => x.1 = y.1 ∧ SameOutcome x.1 x.2 y.2)
        (calls.foldl (serveMemory env) ⟨start, .initial grace, []⟩).outcomes
        (calls.foldl (serve env order grace) ⟨start, {}, []⟩).outcomes ∧
      (calls.foldl (serveMemory env) ⟨start, .initial grace, []⟩).state.auditEvents =
        (calls.foldl (serve env order grace) ⟨start, {}, []⟩).state.auditEvents ∧
      ∀ op now db e t', run env order op (inUnit now grace db) = .error e t' → t'.db = db := by
  have hrefines := (Refines.start start grace).run allowed
  exact ⟨hrefines.outcomes, hrefines.mirrors.events,
    fun op _ _ _ _ h => run_rollsBack env order op h⟩

/-! A limit is set, an asset is reserved and committed, and its only alias is detached. -/

/-- The rows in the order in which they were inserted. -/
def insertionOrder : RowOrder := ⟨id, fun rows => .refl rows⟩

-- a quota that its column cannot hold
example : raises (fun e _ => e == .dataError)
    (run plainEnv insertionOrder
      (.setPartitionQuota "cache".toList "m".toList (some (2 ^ 63)) none none "svc".toList)
      (inUnit 0 5 {})) = true := by decide +kernel

def uploadCalls : List (Op × Time) := [(limitCall, 1), (reserveCall, 2), (commitCall, 2)]

def sampleCalls : List (Op × Time) :=
  uploadCalls ++ [(.detachAlias "cache".toList "m/x".toList "svc".toList, 3)]

theorem fits_of_raises {r : EStateM.Result Failure UnitOfWork Reply}
    (h : raises (fun e _ => e == .dataError) r = false) : ∀ t', r ≠ .error .dataError t' := by
  rintro t' rfl
  simp [raises] at h

theorem settled_of_fixed {path : Text} (h : Fixed path) : Settled path :=
  fun _ hp => Except.ok.inj (h.symm.trans hp) ▸ h

theorem upload_allowed : AllowedAlong (serve plainEnv insertionOrder 5)
    (Allowed plainEnv insertionOrder 5) ⟨0, {}, []⟩ uploadCalls := by
  have hm : Settled "m".toList := settled_of_fixed (by decide)
  have hx : Settled "x".toList := settled_of_fixed (by decide)
  have hplain : Plain
      { space := "cache".toList, partitionId := "m".toList, aliases := [("x".toList, false)]
        ownerServiceId := "svc".toList, reservedBytes := some 3 } :=
    { nonneg := by simp
      partition := hm
      names := by simpa using hx
      apart := by simp }
  have hfresh : (serve plainEnv insertionOrder 5 ⟨0, {}, []⟩ (limitCall, 1)).state.assets.get
      "a1".toList = none := by
    have : ((serve plainEnv insertionOrder 5 ⟨0, {}, []⟩ (limitCall, 1)).state.assets.get
          "a1".toList).isNone = true := by
      decide +kernel
    simpa using this
  refine ⟨⟨by decide, hm, id, by decide, fits_of_raises (by decide +kernel)⟩, ?_, ?_, trivial⟩
  · exact ⟨by
      decide +kernel, ⟨hplain, hfresh, by decide⟩, id, by
      decide, fits_of_raises (by decide +kernel)⟩
  · exact ⟨by decide +kernel, trivial, id, by decide, fits_of_raises (by decide +kernel)⟩

theorem sample_allowed : AllowedAlong (serve plainEnv insertionOrder 5)
    (Allowed plainEnv insertionOrder 5) ⟨0, {}, []⟩ sampleCalls := by
  have hmx : Settled "m/x".toList := settled_of_fixed (by decide)
  have hdated :
      ¬(Op.detachAlias "cache".toList "m/x".toList "svc".toList).Overflows (fun _ => 3) 5 := by
    rintro ⟨-, hover⟩
    exact absurd hover (by decide)
  refine allowedAlong_append.mpr ⟨upload_allowed,
    ⟨by decide +kernel, hmx, hdated, by decide, ?_⟩, trivial⟩
  exact fits_of_raises (by decide +kernel)

theorem postgres_like_sample :
    (sampleCalls.foldl (serveMemory plainEnv) ⟨0, .initial 5, []⟩).state.auditEvents =
        (sampleCalls.foldl (serve plainEnv insertionOrder 5) ⟨0, {}, []⟩).state.auditEvents ∧
      (sampleCalls.foldl (serve plainEnv insertionOrder 5) ⟨0, {}, []⟩).state.auditEvents.length =
        6 :=
  ⟨(postgres_like_memory sample_allowed).2.1, by decide +kernel⟩

end AssetStore.Postgres
