import AssetStore.Api

/-! The bearer store: a bounded table of published capabilities. Every call first retires what has
expired at its clock reading, and a grant is audited before it is published. The store is an exact
view of the grants that were published: at every reading it returns those that have not expired. -/

namespace AssetStore

open Lib

/-- `CapabilityStore`. -/
structure CapabilityStore where
  maxCapabilities : Int
  capabilities : Dict Text Capability := .empty
  max_pos : 0 < maxCapabilities

/-- `_prune_locked`. -/
def CapabilityStore.prune (s : CapabilityStore) (now : Time) : CapabilityStore :=
  { s with capabilities := pruneCapabilities now s.capabilities }

def CapabilityStore.publish (s : CapabilityStore) (cap : Capability) : CapabilityStore :=
  { s with capabilities := s.capabilities.set cap.capabilityId cap }

section Calls

variable {σ : Type}

/-- A call of the store, with the state that audits write to. -/
abbrev StoreM (σ : Type) := EStateM Err (CapabilityStore × σ)

def updateStore (f : CapabilityStore → CapabilityStore) : StoreM σ Unit := fun s =>
  .ok () (f s.1, s.2)

/-- Runs an audit. The store is locked, so the audit cannot call it. -/
def outside (m : EStateM Err σ Unit) : StoreM σ Unit := fun s =>
  match m s.2 with
  | .ok () w => .ok () (s.1, w)
  | .error e w => .error e (s.1, w)

/-- `issue`, at the clock reading `now`: audits, then publishes. -/
def CapabilityStore.issue (now : Time) (cap : Capability) (onGrant : EStateM Err σ Unit) :
    StoreM σ Unit := do
  updateStore fun s => s.prune now
  attempt (raiseIf (cap.expiresAt ≤ now)
    { cls := .validation, message := "capability must expire in the future" })
  let (s, _) ← get
  attempt (raiseIf (s.maxCapabilities ≤ s.capabilities.keys.length)
    { cls := .capabilityCapacity, message := "capability capacity temporarily unavailable" })
  outside onGrant
  updateStore fun s => s.publish cap

/-- `get`, at the clock reading `now`. -/
def CapabilityStore.get (now : Time) (capabilityId : Text) : StoreM σ (Option Capability) := do
  updateStore fun s => s.prune now
  let (s, _) ← MonadState.get
  return s.capabilities.get capabilityId

/-- `__len__`, at the clock reading `now`. -/
def CapabilityStore.len (now : Time) : StoreM σ Nat := do
  updateStore fun s => s.prune now
  let (s, _) ← MonadState.get
  return s.capabilities.keys.length

/-- The calls of the store. -/
inductive StoreCall (σ : Type)
  | issue (cap : Capability) (onGrant : EStateM Err σ Unit)
  | get (capabilityId : Text)
  | len

inductive StoreReply
  | issued
  | found (cap : Option Capability)
  | size (n : Nat)

/-- The call, at the clock reading `now`. -/
def StoreCall.run (now : Time) : StoreCall σ → StoreM σ StoreReply
  | .issue cap onGrant => do
    CapabilityStore.issue now cap onGrant
    return .issued
  | .get capabilityId => do return .found (← CapabilityStore.get now capabilityId)
  | .len => do return .size (← CapabilityStore.len now)

/-- What is left after calls with their clock readings. -/
def serve (s : CapabilityStore × σ) (calls : List (Time × StoreCall σ)) : CapabilityStore × σ :=
  calls.foldl (fun s c => final (c.2.run c.1 s)) s

/-- The id that a call wants to publish. -/
def StoreCall.issues : StoreCall σ → Option Text
  | .issue cap _ => some cap.capabilityId
  | _ => none

/-! ### What a call does -/

variable {s : CapabilityStore} {w : σ} {now : Time} {cap : Capability}
  {onGrant : EStateM Err σ Unit} {id : Text}

/-- The capabilities that are stored and have not expired. -/
def CapabilityStore.unexpired (s : CapabilityStore) (now : Time) : List Capability :=
  s.capabilities.values.filter fun cap => now < cap.expiresAt

theorem prune_length (s : CapabilityStore) (now : Time) :
    (s.prune now).capabilities.keys.length = (s.unexpired now).length :=
  Dict.length_keys_filter _ _

theorem prune_get_eq_some : (s.prune now).capabilities.get id = some cap ↔
    s.capabilities.get id = some cap ∧ now < cap.expiresAt := by
  simp [CapabilityStore.prune, pruneCapabilities, Option.filter_eq_some_iff]

/-- `on_grant` is called, and it returns. -/
def Grants (s : CapabilityStore) (w : σ) (now : Time) (cap : Capability)
    (onGrant : EStateM Err σ Unit) : Prop :=
  now < cap.expiresAt ∧ ((s.unexpired now).length : Int) < s.maxCapabilities ∧
    ∃ w', onGrant w = .ok () w'

theorem prune_length_le (s : CapabilityStore) (now : Time) :
    (s.prune now).capabilities.keys.length ≤ s.capabilities.keys.length :=
  List.length_filter_le _ _

/-- The outcomes of `issue`: expired, full, or the outcome of the audit. -/
theorem issue_eq : CapabilityStore.issue now cap onGrant (s, w) =
    if cap.expiresAt ≤ now then
      .error { cls := .validation, message := "capability must expire in the future" }
        (s.prune now, w)
    else if s.maxCapabilities ≤ (s.unexpired now).length then
      .error { cls := .capabilityCapacity
               message := "capability capacity temporarily unavailable" } (s.prune now, w)
    else
      match onGrant w with
      | .ok () w' => .ok () ((s.prune now).publish cap, w')
      | .error e w' => .error e (s.prune now, w') := by
  rw [← prune_length]
  by_cases hexp : cap.expiresAt ≤ now
  · simp [CapabilityStore.issue, updateStore, attempt, raiseIf, hexp, bind, EStateM.bind]
  · by_cases hfull : s.maxCapabilities ≤ ((s.prune now).capabilities.keys.length : Int)
    · have hcap : (s.prune now).maxCapabilities ≤ ((s.prune now).capabilities.keys.length : Int) :=
        hfull
      simp [CapabilityStore.issue, updateStore, attempt, raiseIf, hexp, hfull, hcap, bind,
        EStateM.bind, get_eq]
    · have hcap : ¬(s.prune now).maxCapabilities ≤ ((s.prune now).capabilities.keys.length : Int) :=
        hfull
      cases hgrant : onGrant w <;>
        simp [CapabilityStore.issue, updateStore, attempt, raiseIf, hexp, hfull, hcap, bind,
          EStateM.bind, get_eq, outside, hgrant]

/-- A call publishes the capability that it grants; any other call only retires what has expired. -/
theorem StoreCall.run_cases (now : Time) (c : StoreCall σ) (s : CapabilityStore) (w : σ) :
    (∃ cap onGrant, c = .issue cap onGrant ∧ Grants s w now cap onGrant ∧
      (final (c.run now (s, w))).1 = (s.prune now).publish cap) ∨
    ((∀ cap onGrant, c = .issue cap onGrant → ¬Grants s w now cap onGrant) ∧
      (final (c.run now (s, w))).1 = s.prune now) := by
  cases c with
  | get id => exact .inr ⟨by simp, rfl⟩
  | len => exact .inr ⟨by simp, rfl⟩
  | issue cap onGrant =>
    simp only [StoreCall.run, final_bind_pure, issue_eq]
    split
    · refine .inr ⟨fun _ _ h g => ?_, rfl⟩
      cases h
      exact absurd g.1 (not_lt.mpr ‹_›)
    · split
      · refine .inr ⟨fun _ _ h g => ?_, rfl⟩
        cases h
        exact absurd g.2.1 (not_lt.mpr ‹_›)
      · cases hgrant : onGrant w with
        | ok u w' =>
          exact .inl ⟨cap, onGrant, rfl, ⟨not_le.mp ‹_›, not_le.mp ‹_›, w', hgrant⟩, rfl⟩
        | error e w' =>
          refine .inr ⟨fun _ _ h g => ?_, rfl⟩
          cases h
          obtain ⟨_, _, _, hok⟩ := g
          rw [hgrant] at hok
          cases hok

/-- `issue` returns exactly when its audit is reached and returns. -/
theorem issue_returns_iff :
    (∃ out, (StoreCall.issue cap onGrant).run now (s, w) = .ok .issued out) ↔
    Grants s w now cap onGrant := by
  simp only [StoreCall.run, bind_eq_ok, pure_eq_ok, issue_eq, Grants]
  constructor
  · rintro ⟨out, u, s1, h, -⟩
    split at h
    · cases h
    · split at h
      · cases h
      · cases hgrant : onGrant w with
        | ok u w' => exact ⟨not_le.mp ‹_›, not_le.mp ‹_›, w', rfl⟩
        | error e w' => simp [hgrant] at h
  · rintro ⟨hlive, hroom, w', hgrant⟩
    refine ⟨((s.prune now).publish cap, w'), (), _, ?_, trivial, rfl⟩
    rw [if_neg (not_le.mpr hlive), if_neg (not_le.mpr hroom), hgrant]

/-- What `issue` leaves when it raises, and when it blames the capacity. -/
theorem issue_raises {e : Err} {out : CapabilityStore × σ}
    (h : (StoreCall.issue cap onGrant).run now (s, w) = .error e out) :
    out.1 = s.prune now ∧ (e.cls = .capabilityCapacity → (∀ w', onGrant w ≠ .error e w') →
      s.maxCapabilities ≤ (s.unexpired now).length) := by
  have hrun : CapabilityStore.issue now cap onGrant (s, w) = .error e out := by
    simpa only [StoreCall.run, bind_eq_error, pure_ne_error, and_false, exists_false, or_false]
      using h
  rw [issue_eq] at hrun
  split at hrun
  · cases hrun
    exact ⟨rfl, by simp⟩
  · split at hrun
    · cases hrun
      exact ⟨rfl, fun _ _ => ‹_›⟩
    · cases hgrant : onGrant w with
      | ok u w' => simp [hgrant] at hrun
      | error e' w' =>
        simp only [hgrant] at hrun
        cases hrun
        exact ⟨rfl, fun _ hother => absurd rfl (hother w')⟩

/-! ### Runs -/

theorem serve_append (s : CapabilityStore × σ) (calls : List (Time × StoreCall σ)) (now : Time)
    (c : StoreCall σ) :
    serve s (calls ++ [(now, c)]) = final (c.run now (serve s calls)) := by
  simp [serve]

/-- Among the calls is one that issued the capability, and whose audit returned. -/
def Published (s : CapabilityStore × σ) (calls : List (Time × StoreCall σ)) (cap : Capability) :
    Prop :=
  ∃ before now onGrant after, calls = before ++ (now, .issue cap onGrant) :: after ∧
    Grants (serve s before).1 (serve s before).2 now cap onGrant

theorem published_append {s : CapabilityStore × σ} {calls : List (Time × StoreCall σ)}
    {c : StoreCall σ} : Published s (calls ++ [(now, c)]) cap ↔ Published s calls cap ∨
      ∃ onGrant, c = .issue cap onGrant ∧
        Grants (serve s calls).1 (serve s calls).2 now cap onGrant := by
  constructor
  · rintro ⟨before, t, onGrant, after, hsplit, hgrants⟩
    rcases List.eq_nil_or_concat after with rfl | ⟨after', last, rfl⟩
    · obtain ⟨rfl, hlast⟩ := List.append_inj' hsplit rfl
      simp only [List.cons.injEq, Prod.mk.injEq, and_true] at hlast
      obtain ⟨rfl, rfl⟩ := hlast
      exact .inr ⟨onGrant, rfl, hgrants⟩
    · rw [List.concat_eq_append, ← List.cons_append, ← List.append_assoc] at hsplit
      obtain ⟨rfl, -⟩ := List.append_inj' hsplit rfl
      exact .inl ⟨before, t, onGrant, after', rfl, hgrants⟩
  · rintro (⟨before, t, onGrant, after, rfl, hgrants⟩ | ⟨onGrant, rfl, hgrants⟩)
    · exact ⟨before, t, onGrant, after ++ [(now, c)], by simp, hgrants⟩
    · exact ⟨calls, now, onGrant, [], rfl, hgrants⟩

theorem Published.issued {s : CapabilityStore × σ} {calls : List (Time × StoreCall σ)}
    (h : Published s calls cap) :
    cap.capabilityId ∈ calls.filterMap fun c => c.2.issues := by
  obtain ⟨before, t, onGrant, after, rfl, -⟩ := h
  simp [StoreCall.issues]

/-- The table holds published capabilities only, and all those that have not expired at `now`. -/
structure Views (start : CapabilityStore × σ) (calls : List (Time × StoreCall σ)) (now : Time)
    (s : CapabilityStore) : Prop where
  bound : s.maxCapabilities = start.1.maxCapabilities
  room : (s.capabilities.keys.length : Int) ≤ s.maxCapabilities
  sound : ∀ id cap, s.capabilities.get id = some cap →
    cap.capabilityId = id ∧ Published start calls cap
  complete : ∀ cap, Published start calls cap → now < cap.expiresAt →
    s.capabilities.get cap.capabilityId = some cap

theorem Views.later {start : CapabilityStore × σ} {calls : List (Time × StoreCall σ)} {now' : Time}
    (h : Views start calls now s) (le : now ≤ now') : Views start calls now' s :=
  { h with complete := fun cap hcap hlive => h.complete cap hcap (lt_of_le_of_lt le hlive) }

theorem Views.prune {start : CapabilityStore × σ} {calls : List (Time × StoreCall σ)}
    (h : Views start calls now s) : Views start calls now (s.prune now) where
  bound := h.bound
  room := le_trans (by exact_mod_cast prune_length_le s now) h.room
  sound id cap hget := h.sound id cap (prune_get_eq_some.mp hget).1
  complete cap hcap hlive := prune_get_eq_some.mpr ⟨h.complete cap hcap hlive, hlive⟩

/-- One call keeps the view, when the id that it issues is new. -/
theorem Views.call {start : CapabilityStore × σ} {calls : List (Time × StoreCall σ)}
    {c : StoreCall σ} (h : Views start calls now (serve start calls).1)
    (fresh : ∀ id, c.issues = some id → id ∉ calls.filterMap fun c => c.2.issues) :
    Views start (calls ++ [(now, c)]) now (serve start (calls ++ [(now, c)])).1 := by
  have hp := h.prune
  rw [serve_append]
  rcases c.run_cases now (serve start calls).1 (serve start calls).2 with
    ⟨cap, onGrant, rfl, hgrants, hfinal⟩ | ⟨hnone, hfinal⟩
  · have hnew : ∀ other, Published start calls other → other.capabilityId ≠ cap.capabilityId :=
      fun other hother e => fresh _ rfl (e ▸ hother.issued)
    have hfree : (serve start calls).1.capabilities.get cap.capabilityId = none := by
      by_contra hsome
      obtain ⟨other, hother⟩ := Option.ne_none_iff_exists'.mp hsome
      obtain ⟨hid, hpub⟩ := h.sound _ other hother
      exact hnew other hpub hid
    have hkeys : ((serve start calls).1.prune now).capabilities.get cap.capabilityId = none := by
      simp [CapabilityStore.prune, pruneCapabilities, hfree]
    rw [hfinal]
    refine ⟨h.bound, ?_, fun id other hget => ?_, fun other hother hlive => ?_⟩
    · have hroom := hgrants.2.1
      rw [← prune_length] at hroom
      simp only [CapabilityStore.publish, Dict.keys_set_of_new hkeys, List.length_append,
        List.length_singleton]
      push_cast
      exact hroom
    · simp only [CapabilityStore.publish, Dict.get_set] at hget
      split at hget
      · cases hget
        exact ⟨Eq.symm ‹_›, published_append.mpr (.inr ⟨onGrant, rfl, hgrants⟩)⟩
      · obtain ⟨hid, hpub⟩ := hp.sound id other hget
        exact ⟨hid, published_append.mpr (.inl hpub)⟩
    · simp only [CapabilityStore.publish, Dict.get_set]
      rcases published_append.mp hother with hold | ⟨_, heq, -⟩
      · rw [if_neg (hnew other hold)]
        exact hp.complete other hold hlive
      · cases heq
        rw [if_pos rfl]
  · rw [hfinal]
    refine ⟨hp.bound, hp.room, fun id cap hget => ?_, fun cap hcap hlive => ?_⟩
    · obtain ⟨hid, hpub⟩ := hp.sound id cap hget
      exact ⟨hid, published_append.mpr (.inl hpub)⟩
    · rcases published_append.mp hcap with hold | ⟨onGrant, heq, hgrants⟩
      · exact hp.complete cap hold hlive
      · exact absurd hgrants (hnone cap onGrant heq)

/-- The view holds after any calls, at every reading that is not before theirs. -/
theorem views_of_calls {start : CapabilityStore × σ} (empty : start.1.capabilities = .empty)
    {calls : List (Time × StoreCall σ)} (ordered : (calls.map Prod.fst).Pairwise (· ≤ ·))
    (distinct : (calls.filterMap fun c => c.2.issues).Nodup)
    (latest : ∀ t ∈ calls.map Prod.fst, t ≤ now) :
    Views start calls now (serve start calls).1 := by
  induction calls using List.reverseRecOn generalizing now with
  | nil =>
    have hpos := start.1.max_pos
    refine ⟨rfl, ?_, ?_, ?_⟩
    · simp [serve, empty, Dict.empty]
      omega
    · simp [serve, empty]
    · rintro cap ⟨before, _, _, after, hnil, -⟩
      simp at hnil
  | append_singleton calls c ih =>
    obtain ⟨t, c⟩ := c
    simp only [List.map_append, List.map_cons, List.map_nil, List.pairwise_append,
      List.filterMap_append] at ordered distinct latest
    have hbefore : ∀ t' ∈ calls.map Prod.fst, t' ≤ t := fun t' ht' =>
      ordered.2.2 t' ht' t (by simp)
    have hcall := (ih ordered.1 distinct.of_append_left hbefore).call (c := c) fun id hid hmem =>
      (List.nodup_append.mp distinct).2.2 id hmem id (by simp [hid]) rfl
    exact hcall.later (latest t (by simp))

/-- In a run of the bearer store with distinct ids and a clock that does not go back, the table
stays within its capacity, `get` returns exactly the published capabilities that have not expired,
`issue` publishes exactly what it has audited, and a raising `issue` publishes nothing, removes
nothing that is still valid, and blames the capacity only when it is used up. -/
theorem bearers_of_calls (s : CapabilityStore) (w : σ) (empty : s.capabilities = .empty)
    {calls : List (Time × StoreCall σ)} {c : StoreCall σ}
    (ordered : ((calls ++ [(now, c)]).map Prod.fst).Pairwise (· ≤ ·))
    (distinct : ((calls ++ [(now, c)]).filterMap fun c => c.2.issues).Nodup) :
    ((final (c.run now (serve (s, w) calls))).1.capabilities.keys.length : Int) ≤
        s.maxCapabilities ∧
      (∀ id, c = .get id → ∃ found, c.run now (serve (s, w) calls) =
          .ok (.found found) (final (c.run now (serve (s, w) calls))) ∧
        ∀ cap, found = some cap ↔
          cap.capabilityId = id ∧ Published (s, w) calls cap ∧ now < cap.expiresAt) ∧
      ∀ cap onGrant, c = .issue cap onGrant →
        ((∃ out, c.run now (serve (s, w) calls) = .ok .issued out) ↔
          Grants (serve (s, w) calls).1 (serve (s, w) calls).2 now cap onGrant) ∧
        ∀ e out, c.run now (serve (s, w) calls) = .error e out →
          (∀ id other, out.1.capabilities.get id = some other →
            (serve (s, w) calls).1.capabilities.get id = some other) ∧
          (∀ id other, (serve (s, w) calls).1.capabilities.get id = some other →
            now < other.expiresAt → out.1.capabilities.get id = some other) ∧
          (e.cls = .capabilityCapacity → (∀ w', onGrant (serve (s, w) calls).2 ≠ .error e w') →
            (((serve (s, w) calls).1.unexpired now).length : Int) = s.maxCapabilities) := by
  set start : CapabilityStore × σ := (s, w)
  set state := serve start calls
  simp only [List.map_append, List.map_cons, List.map_nil, List.pairwise_append,
    List.filterMap_append] at ordered distinct
  have hlatest : ∀ t ∈ calls.map Prod.fst, t ≤ now := fun t ht => ordered.2.2 t ht now (by simp)
  have hview : Views start calls now (serve start calls).1 :=
    views_of_calls empty ordered.1 distinct.of_append_left hlatest
  have hafter := hview.call (c := c) fun id hid hmem =>
    (List.nodup_append.mp distinct).2.2 id hmem id (by simp [hid]) rfl
  rw [serve_append] at hafter
  refine ⟨hafter.bound ▸ hafter.room, ?_, ?_⟩
  · rintro id rfl
    refine ⟨(state.1.prune now).capabilities.get id, rfl, fun cap => ?_⟩
    rw [prune_get_eq_some]
    constructor
    · rintro ⟨hget, hlive⟩
      obtain ⟨hid, hpub⟩ := hview.sound id cap hget
      exact ⟨hid, hpub, hlive⟩
    · rintro ⟨rfl, hpub, hlive⟩
      exact ⟨hview.complete cap hpub hlive, hlive⟩
  · rintro cap onGrant rfl
    refine ⟨issue_returns_iff, fun e out hraise => ?_⟩
    obtain ⟨hleft, hfull⟩ := issue_raises hraise
    rw [hleft]
    refine ⟨fun id other hget => (prune_get_eq_some.mp hget).1,
      fun id other hget hlive => prune_get_eq_some.mpr ⟨hget, hlive⟩, fun hcls howner => ?_⟩
    have hle : ((state.1.unexpired now).length : Int) ≤ state.1.maxCapabilities := by
      rw [← prune_length]
      exact hview.prune.room
    exact le_antisymm (hview.bound ▸ hle) (hview.bound ▸ hfull hcls howner)

end Calls

/-- Two grants with room for one: the second is refused, and the first is found until it expires. -/
theorem bearers_full :
    let grant (id : Text) : Capability :=
      { capabilityId := id, operation := .read, scopePrefix := "cache/m".toList, expiresAt := 60
        callerServiceId := "fetcher".toList, scope_valid := by decide }
    let store : CapabilityStore := { maxCapabilities := 1, max_pos := by decide }
    let calls : List (Time × StoreCall Unit) :=
      [(0, .issue (grant "a".toList) (pure ())), (1, .issue (grant "b".toList) (pure ()))]
    ∃ found, (StoreCall.get "a".toList).run 59 (serve (store, ()) calls) =
        .ok (.found found) (final ((StoreCall.get "a".toList).run 59 (serve (store, ()) calls))) ∧
      ∀ cap, found = some cap ↔ cap.capabilityId = "a".toList ∧
        Published (store, ()) calls cap ∧ 59 < cap.expiresAt := by
  intro grant store calls
  exact (@bearers_of_calls Unit 59 store () rfl calls (.get "a".toList) (by decide)
    (by decide)).2.1 _ rfl

end AssetStore
