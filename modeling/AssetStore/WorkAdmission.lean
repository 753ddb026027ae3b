import Mathlib.Data.Finset.Card
import Mathlib.Logic.Function.Basic
import Mathlib.Tactic.Common

/-! Work admission: a gate that admits a bounded number of requests and never queues one. A request
that hands blocking work to a thread keeps its slot until that work has ended, however often the
request is cancelled. Requests and workers advance one event at a time, in any order. -/

namespace AssetStore

/-! ### `WorkAdmission` -/

/-- The gate: its limit, and the requests inside. -/
structure WorkAdmission where
  limit : Int
  active : Int := 0
  limit_pos : 0 < limit

/-- The entry of `lease`, which admits without waiting. -/
def WorkAdmission.acquire (gate : WorkAdmission) : Option WorkAdmission :=
  if gate.active < gate.limit then some { gate with active := gate.active + 1 } else none

/-- The `finally` of `lease`. -/
def WorkAdmission.release (gate : WorkAdmission) : WorkAdmission :=
  { gate with active := gate.active - 1 }

/-! ### `run_work_until_complete` -/

/-- How blocking work ends; `cancelled` is a cancellation error of its own. -/
inductive WorkOutcome
  | returned
  | raised
  | cancelled
  deriving DecidableEq

/-- The task around a thread: nothing stops it once it is created. -/
inductive Worker
  | queued
  | running
  | done (outcome : WorkOutcome)
  deriving DecidableEq

def Worker.isDone : Worker → Bool
  | .done _ => true
  | _ => false

/-- Where a request is. -/
inductive Phase
  /-- before its lease -/
  | outside
  /-- turned away by the gate -/
  | denied
  /-- in the body of its lease, with no work under way -/
  | inside
  /-- at `await asyncio.shield(worker)` -/
  | waiting
  /-- at the same `await`, in the loop that drains the worker after a cancellation -/
  | draining
  | exited
  deriving DecidableEq

/-- What resumes an `await asyncio.shield(worker)`. -/
inductive Wake
  | cancelled
  | finished (outcome : WorkOutcome)
  deriving DecidableEq

/-- A cancellation arrives at any time, an outcome only from a worker that is done. -/
def Wake.possible (worker : Worker) : Wake → Bool
  | .cancelled => true
  | .finished outcome => worker == .done outcome

/-- `while not worker.done()`: either awaits again, or raises the cancellation into the lease. -/
def drain (worker : Worker) : Phase := if worker.isDone then .inside else .draining

/-- After the first `await`: a result or a failure leaves, a cancellation starts the drain loop. -/
def afterShield (worker : Worker) : Wake → Phase
  | .finished .returned => .inside
  | .finished .raised => .inside
  | .finished .cancelled => drain worker
  | .cancelled => drain worker

/-- After the `await` in the drain loop: a failure of the worker breaks it. -/
def afterDrain (worker : Worker) : Wake → Phase
  | .finished .returned => drain worker
  | .finished .raised => .inside
  | .finished .cancelled => drain worker
  | .cancelled => drain worker

/-! ### Events -/

section Events

variable {ι : Type} [DecidableEq ι]

/-- The gate, and each request with the work that it has started last. -/
structure Floor (ι : Type) where
  gate : WorkAdmission
  phase : ι → Phase
  worker : ι → Option Worker

/-- Before any request. -/
def Floor.start (gate : WorkAdmission) : Floor ι :=
  { gate, phase := fun _ => .outside, worker := fun _ => none }

inductive FloorEvent (ι : Type)
  | enter (i : ι)
  | submit (i : ι)
  | begin (i : ι)
  | finish (i : ι) (outcome : WorkOutcome)
  | wake (i : ι) (wake : Wake)
  | exit (i : ι)

def Floor.setPhase (s : Floor ι) (i : ι) (phase : Phase) : Floor ι :=
  { s with phase := Function.update s.phase i phase }

def Floor.setWorker (s : Floor ι) (i : ι) (worker : Worker) : Floor ι :=
  { s with worker := Function.update s.worker i (some worker) }

/-- The event, if it can happen. A request in its lease may start work again and again, and it may
leave at any time: it returns, raises, or is cancelled in the body. -/
def Floor.step (s : Floor ι) : FloorEvent ι → Option (Floor ι)
  | .enter i =>
    if s.phase i = .outside then
      match s.gate.acquire with
      | some gate => some ({ s with gate }.setPhase i .inside)
      | none => some (s.setPhase i .denied)
    else none
  | .submit i =>
    if s.phase i = .inside then some ((s.setWorker i .queued).setPhase i .waiting) else none
  | .begin i => if s.worker i = some .queued then some (s.setWorker i .running) else none
  | .finish i outcome =>
    if s.worker i = some .running then some (s.setWorker i (.done outcome)) else none
  | .wake i wake =>
    match s.phase i, s.worker i with
    | .waiting, some worker =>
      if wake.possible worker then some (s.setPhase i (afterShield worker wake)) else none
    | .draining, some worker =>
      if wake.possible worker then some (s.setPhase i (afterDrain worker wake)) else none
    | _, _ => none
  | .exit i =>
    if s.phase i = .inside then
      some ({ s with gate := s.gate.release }.setPhase i .exited)
    else none

/-- The events, one after the other. -/
def Floor.play (s : Floor ι) (events : List (FloorEvent ι)) : Option (Floor ι) :=
  events.foldlM Floor.step s

/-! ### What an event does -/

/-- The request holds a slot of the gate. -/
def Phase.InLease : Phase → Prop
  | .inside | .waiting | .draining => True
  | _ => False

instance : DecidablePred Phase.InLease :=
  fun p => by cases p <;> simp only [Phase.InLease] <;> infer_instance

/-- Work has been handed to a thread and has not ended. -/
def Unfinished (worker : Option Worker) : Prop := ∃ w ∈ worker, w.isDone = false

/-- What the phase of a request says about its work. -/
def Phase.Agrees (worker : Option Worker) : Phase → Prop
  | .outside | .denied => worker = none
  | .inside | .exited => ¬Unfinished worker
  | .waiting | .draining => worker ≠ none

theorem agrees_update {phase : ι → Phase} {worker : ι → Option Worker} {i : ι} {p : Phase}
    {w : Option Worker} (h : ∀ j, (phase j).Agrees (worker j)) (hi : p.Agrees w) (j : ι) :
    (Function.update phase i p j).Agrees (Function.update worker i w j) := by
  by_cases hji : j = i
  · subst hji
    simpa using hi
  · simpa [Function.update_of_ne hji] using h j

/-- `active` counts the requests that are inside their lease. -/
def Counts (active : Int) (phase : ι → Phase) : Prop :=
  ∃ leases : Finset ι, (∀ i, i ∈ leases ↔ (phase i).InLease) ∧ (leases.card : Int) = active

namespace Counts

variable {active : Int} {phase : ι → Phase} {i : ι} {p : Phase}

theorem enter (h : Counts active phase) (before : ¬(phase i).InLease) (after : p.InLease) :
    Counts (active + 1) (Function.update phase i p) := by
  obtain ⟨leases, hmem, rfl⟩ := h
  refine ⟨insert i leases, fun j => ?_, ?_⟩
  · by_cases hji : j = i
    · subst hji
      simp [after]
    · simp [hji, hmem]
  · rw [Finset.card_insert_of_notMem fun hi => before ((hmem i).mp hi)]
    push_cast
    rfl

theorem leave (h : Counts active phase) (before : (phase i).InLease) (after : ¬p.InLease) :
    Counts (active - 1) (Function.update phase i p) := by
  obtain ⟨leases, hmem, rfl⟩ := h
  have hi : i ∈ leases := (hmem i).mpr before
  refine ⟨leases.erase i, fun j => ?_, ?_⟩
  · by_cases hji : j = i
    · subst hji
      simp [after]
    · simp [hji, hmem]
  · have hpos := Finset.card_pos.mpr ⟨i, hi⟩
    rw [Finset.card_erase_of_mem hi]
    omega

theorem stay (h : Counts active phase) (same : p.InLease ↔ (phase i).InLease) :
    Counts active (Function.update phase i p) := by
  obtain ⟨leases, hmem, hcard⟩ := h
  refine ⟨leases, fun j => ?_, hcard⟩
  by_cases hji : j = i
  · subst hji
    simp [hmem, same]
  · simp [hji, hmem]

end Counts

/-- Every request keeps its slot while its work goes on, and the gate counts the slots. -/
structure Floor.Held (limit : Int) (s : Floor ι) : Prop where
  agrees : ∀ i, (s.phase i).Agrees (s.worker i)
  counts : Counts s.gate.active s.phase
  capacity : s.gate.limit = limit
  bound : s.gate.active ≤ limit

namespace Floor.Held

variable {limit : Int} {s s' : Floor ι} {i : ι}

/-- A request that moves inside its lease. -/
theorem setPhase (h : s.Held limit) {p : Phase} (agrees : p.Agrees (s.worker i))
    (same : p.InLease ↔ (s.phase i).InLease) : (s.setPhase i p).Held limit where
  agrees j := by
    have := agrees_update (i := i) h.agrees agrees j
    rwa [Function.update_eq_self] at this
  counts := h.counts.stay same
  capacity := h.capacity
  bound := h.bound

theorem setWorker (h : s.Held limit) {w : Worker} (agrees : (s.phase i).Agrees (some w)) :
    (s.setWorker i w).Held limit where
  agrees j := by
    have := agrees_update (i := i) h.agrees agrees j
    rwa [Function.update_eq_self] at this
  counts := h.counts
  capacity := h.capacity
  bound := h.bound

omit [DecidableEq ι] in
/-- A request whose work goes on is at one of the two awaits. -/
theorem awaits (h : s.Held limit) (hi : Unfinished (s.worker i)) :
    s.phase i = .waiting ∨ s.phase i = .draining := by
  have hagrees := h.agrees i
  obtain ⟨w, hw, -⟩ := id hi
  cases hp : s.phase i with
  | outside | denied =>
    rw [hp] at hagrees
    have hnone : s.worker i = none := hagrees
    rw [hnone] at hw
    cases hw
  | inside | exited =>
    rw [hp] at hagrees
    exact absurd hi hagrees
  | waiting => exact .inl rfl
  | draining => exact .inr rfl

end Floor.Held

theorem drain_agrees (w : Worker) : (drain w).Agrees (some w) ∧ (drain w).InLease := by
  unfold drain
  split
  · refine ⟨?_, trivial⟩
    rintro ⟨_, hw, hopen⟩
    cases hw
    simp_all
  · exact ⟨by simp [Phase.Agrees], trivial⟩

/-- Whatever wakes a request, it goes on inside its lease, and it goes on without awaiting only
when its work has ended. -/
theorem wake_agrees {w : Worker} {wake : Wake} (possible : wake.possible w = true) :
    ((afterShield w wake).Agrees (some w) ∧ (afterShield w wake).InLease) ∧
      ((afterDrain w wake).Agrees (some w) ∧ (afterDrain w wake).InLease) := by
  have hended : ∀ outcome, wake = .finished outcome →
      Phase.inside.Agrees (some w) ∧ Phase.inside.InLease := by
    rintro outcome rfl
    refine ⟨?_, trivial⟩
    rintro ⟨_, hw, hopen⟩
    cases hw
    have hdone : w = .done outcome := by simpa [Wake.possible] using possible
    simp [hdone, Worker.isDone] at hopen
  cases wake with
  | cancelled => exact ⟨drain_agrees w, drain_agrees w⟩
  | finished outcome =>
    cases outcome with
    | returned => exact ⟨hended _ rfl, drain_agrees w⟩
    | raised => exact ⟨hended _ rfl, hended _ rfl⟩
    | cancelled => exact ⟨drain_agrees w, drain_agrees w⟩

/-- Every event keeps the slots with the work. -/
theorem Floor.Held.step {limit : Int} {s s' : Floor ι} (h : s.Held limit) {event : FloorEvent ι}
    (hstep : s.step event = some s') : s'.Held limit := by
  cases event with
  | enter i =>
    simp only [Floor.step] at hstep
    split at hstep
    · rename_i houtside
      have hnone : s.worker i = none := by simpa [houtside, Phase.Agrees] using h.agrees i
      unfold WorkAdmission.acquire at hstep
      by_cases hroom : s.gate.active < s.gate.limit
      · simp only [hroom, if_true, Option.some.injEq] at hstep
        subst hstep
        have hlimit := h.capacity
        refine ⟨fun j => ?_, h.counts.enter (by simp [houtside, Phase.InLease]) trivial, hlimit, ?_⟩
        · have := agrees_update (i := i) (p := .inside) (w := none) h.agrees
            (by simp [Phase.Agrees, Unfinished]) j
          rwa [← hnone, Function.update_eq_self] at this
        · simp only [Floor.setPhase]
          omega
      · simp only [hroom, if_false, Option.some.injEq] at hstep
        subst hstep
        exact h.setPhase hnone (by simp [houtside, Phase.InLease])
    · cases hstep
  | submit i =>
    simp only [Floor.step] at hstep
    split at hstep
    · rename_i hinside
      cases hstep
      refine ⟨agrees_update h.agrees (by simp [Phase.Agrees]), h.counts.stay ?_,
        h.capacity, h.bound⟩
      simp [hinside, Phase.InLease]
    · cases hstep
  | begin i =>
    simp only [Floor.step] at hstep
    split at hstep
    · rename_i hqueued
      cases hstep
      refine h.setWorker ?_
      rcases h.awaits (i := i) ⟨.queued, by simp [hqueued], rfl⟩ with hp | hp <;>
        simp [hp, Phase.Agrees]
    · cases hstep
  | finish i outcome =>
    simp only [Floor.step] at hstep
    split at hstep
    · rename_i hrunning
      cases hstep
      refine h.setWorker ?_
      rcases h.awaits (i := i) ⟨.running, by simp [hrunning], rfl⟩ with hp | hp <;>
        simp [hp, Phase.Agrees]
    · cases hstep
  | wake i wake =>
    simp only [Floor.step] at hstep
    split at hstep
    · rename_i worker hphase hworker
      split at hstep
      · cases hstep
        obtain ⟨⟨hagrees, hlease⟩, -⟩ := wake_agrees ‹_›
        exact h.setPhase (hworker ▸ hagrees) (iff_of_true hlease (by simp [hphase, Phase.InLease]))
      · cases hstep
    · rename_i worker hphase hworker
      split at hstep
      · cases hstep
        obtain ⟨-, hagrees, hlease⟩ := wake_agrees ‹_›
        exact h.setPhase (hworker ▸ hagrees) (iff_of_true hlease (by simp [hphase, Phase.InLease]))
      · cases hstep
    · cases hstep
  | exit i =>
    simp only [Floor.step] at hstep
    split at hstep
    · rename_i hinside
      cases hstep
      refine ⟨fun j => ?_, h.counts.leave (by simp [hinside, Phase.InLease])
        (by simp [Phase.InLease]), h.capacity, ?_⟩
      · have hdone : ¬Unfinished (s.worker i) := by
          have := h.agrees i
          rwa [hinside] at this
        have := agrees_update (i := i) (p := .exited) h.agrees hdone j
        rwa [Function.update_eq_self] at this
      · have := h.bound
        simp only [Floor.setPhase, WorkAdmission.release]
        omega
    · cases hstep

theorem Floor.Held.play {limit : Int} {events : List (FloorEvent ι)} {s s' : Floor ι}
    (h : s.Held limit) (hplay : s.play events = some s') : s'.Held limit := by
  induction events generalizing s with
  | nil =>
    cases hplay
    exact h
  | cons event rest ih =>
    simp only [Floor.play, List.foldlM_cons, Option.bind_eq_bind, Option.bind_eq_some_iff] at hplay
    obtain ⟨s1, hstep, hrest⟩ := hplay
    exact ih (h.step hstep) hrest

omit [DecidableEq ι] in
theorem Floor.held_start {gate : WorkAdmission} (empty : gate.active = 0) :
    (Floor.start gate : Floor ι).Held gate.limit where
  agrees _ := rfl
  counts := ⟨∅, by simp [Floor.start, Phase.InLease], by simp [Floor.start, empty]⟩
  capacity := rfl
  bound := by
    have := gate.limit_pos
    simp only [Floor.start]
    omega

/-- A request that was turned away stays so, and starts nothing. -/
theorem Floor.step_denied {s s' : Floor ι} {event : FloorEvent ι} {i : ι}
    (hstep : s.step event = some s') (denied : s.phase i = .denied) (idle : s.worker i = none) :
    s'.phase i = .denied ∧ s'.worker i = none := by
  have other : ∀ {j : ι}, s.phase j ≠ .denied → i ≠ j := fun hj e => hj (e ▸ denied)
  have busy : ∀ {j : ι} {w : Worker}, s.worker j = some w → i ≠ j := fun hj e => by
    rw [← e, idle] at hj
    cases hj
  cases event with
  | enter j =>
    simp only [Floor.step] at hstep
    split at hstep
    · rename_i hj
      have hij := other (j := j) (by simp [hj])
      split at hstep <;> cases hstep <;> simp [Floor.setPhase, Function.update_of_ne hij,
        denied, idle]
    · cases hstep
  | submit j =>
    simp only [Floor.step] at hstep
    split at hstep
    · rename_i hj
      have hij := other (j := j) (by simp [hj])
      cases hstep
      simp [Floor.setPhase, Floor.setWorker, Function.update_of_ne hij, denied, idle]
    · cases hstep
  | begin j =>
    simp only [Floor.step] at hstep
    split at hstep
    · cases hstep
      simp [Floor.setWorker, Function.update_of_ne (busy ‹_›), denied, idle]
    · cases hstep
  | finish j outcome =>
    simp only [Floor.step] at hstep
    split at hstep
    · cases hstep
      simp [Floor.setWorker, Function.update_of_ne (busy ‹_›), denied, idle]
    · cases hstep
  | wake j wake =>
    simp only [Floor.step] at hstep
    split at hstep
    · split at hstep
      · cases hstep
        simp [Floor.setPhase, Function.update_of_ne (busy ‹_›), denied, idle]
      · cases hstep
    · split at hstep
      · cases hstep
        simp [Floor.setPhase, Function.update_of_ne (busy ‹_›), denied, idle]
      · cases hstep
    · cases hstep
  | exit j =>
    simp only [Floor.step] at hstep
    split at hstep
    · rename_i hj
      have hij := other (j := j) (by simp [hj])
      cases hstep
      simp [Floor.setPhase, Function.update_of_ne hij, denied, idle]
    · cases hstep

theorem Floor.play_denied {events : List (FloorEvent ι)} {s s' : Floor ι} {i : ι}
    (hplay : s.play events = some s') (denied : s.phase i = .denied) (idle : s.worker i = none) :
    s'.worker i = none := by
  induction events generalizing s with
  | nil =>
    cases hplay
    exact idle
  | cons event rest ih =>
    simp only [Floor.play, List.foldlM_cons, Option.bind_eq_bind, Option.bind_eq_some_iff] at hplay
    obtain ⟨s1, hstep, hrest⟩ := hplay
    obtain ⟨hdenied, hidle⟩ := Floor.step_denied hstep denied idle
    exact ih hrest hdenied hidle

/-- However requests and workers interleave, and whatever is cancelled: the gate counts exactly the
requests in their lease, never more than its limit, every unfinished work has its slot, a request
that is turned away never starts any, and nothing is left when no request is in its lease. -/
theorem work_admitted_of_play {gate : WorkAdmission} (empty : gate.active = 0)
    {events : List (FloorEvent ι)} {s : Floor ι}
    (run : (Floor.start gate).play events = some s) :
    (∃ leases : Finset ι, (∀ i, i ∈ leases ↔ (s.phase i).InLease) ∧
      (leases.card : Int) = s.gate.active) ∧
    s.gate.active ≤ gate.limit ∧
    (∃ unfinished : Finset ι, (∀ i, i ∈ unfinished ↔ Unfinished (s.worker i)) ∧
      (unfinished.card : Int) ≤ s.gate.active) ∧
    (∀ i, s.phase i = .denied → s.worker i = none ∧
      ∀ later s', s.play later = some s' → s'.worker i = none) ∧
    ((∀ i, ¬(s.phase i).InLease) → s.gate.active = 0 ∧ ∀ i, ¬Unfinished (s.worker i)) := by
  have held := (Floor.held_start empty).play run
  have inside : ∀ i, Unfinished (s.worker i) → (s.phase i).InLease := fun i hi => by
    rcases held.awaits hi with hp | hp <;> simp [hp, Phase.InLease]
  obtain ⟨leases, hmem, hcard⟩ := held.counts
  refine ⟨⟨leases, hmem, hcard⟩, held.bound, ?_, fun i hi => ?_, fun hall => ⟨?_, fun i hi => ?_⟩⟩
  · classical
    refine ⟨leases.filter fun i => Unfinished (s.worker i), fun i => ?_, ?_⟩
    · rw [Finset.mem_filter, hmem]
      exact ⟨fun hi => hi.2, fun hi => ⟨inside i hi, hi⟩⟩
    · rw [← hcard]
      exact_mod_cast Finset.card_filter_le _ _
  · have idle : s.worker i = none := by
      have := held.agrees i
      rwa [hi] at this
    exact ⟨idle, fun later s' hlater => Floor.play_denied hlater hi idle⟩
  · rw [← hcard, Finset.eq_empty_of_forall_notMem fun i hi => hall i ((hmem i).mp hi)]
    rfl
  · exact hall i (inside i hi)

end Events

/-- An upload that is cancelled twice keeps the only slot until its worker has failed. -/
theorem work_admitted_cancelled :
    let gate : WorkAdmission := { limit := 1, limit_pos := by decide }
    let events : List (FloorEvent Bool) :=
      [.enter true, .submit true, .begin true, .wake true .cancelled, .enter false,
       .wake true .cancelled]
    ∃ s, (Floor.start gate).play events = some s ∧ s.gate.active = 1 ∧ s.phase false = .denied ∧
      s.worker false = none := by
  intro gate events
  obtain ⟨s, hs⟩ : ∃ s, (Floor.start gate).play events = some s := Option.isSome_iff_exists.mp rfl
  have hactive : ((Floor.start gate).play events).map (fun s => (s.gate.active, s.phase false)) =
      some (1, .denied) := by decide
  rw [hs] at hactive
  simp only [Option.map_some, Option.some.injEq, Prod.mk.injEq] at hactive
  exact ⟨s, hs, hactive.1, hactive.2,
    ((work_admitted_of_play rfl hs).2.2.2.1 false hactive.2).1⟩

end AssetStore
