import AssetStore.Registry.Placement

/-! Which partition an alias was created in. A binding does not say it, but the audit log does: the
last creation of the key names an asset, and assets keep their partition. A rebind instead takes the
first segment of the alias for its partition. -/

namespace AssetStore

open Lib Relation

/-! ### Where an alias was created -/

/-- The event of a binding that is new under the key. -/
def AuditEvent.creates (e : AuditEvent) (key : Text) : Bool :=
  (e.action == .aliasCreate || e.action == .aliasAttach) && e.target == key

/-- The asset under which the key was last created. -/
def Registry.origin (r : Registry) (key : Text) : Option Text :=
  (r.auditEvents.filter fun e => e.creates key).getLast?.bind fun e =>
    e.after.lookup "asset_id".toList

/-- The key was last created under an asset of the partition. -/
def Registry.CreatedIn (r : Registry) (key pid : Text) : Prop :=
  ∃ id a, r.origin key = some id ∧ r.assets.get id = some a ∧ a.partitionId = pid

section Origin

variable {r r' : Registry} {key id : Text} {events : List AuditEvent}

theorem origin_append (h : r'.auditEvents = r.auditEvents ++ events)
    (other : ∀ e ∈ events, e.creates key = false) : r'.origin key = r.origin key := by
  have hnone : events.filter (fun e => e.creates key) = [] := by
    rw [List.filter_eq_nil_iff]
    intro e he
    simp [other e he]
  unfold Registry.origin
  rw [h, List.filter_append, hnone, List.append_nil]

theorem origin_created (h : r'.auditEvents = r.auditEvents ++ events)
    (some_creates : ∃ e ∈ events, e.creates key = true)
    (all : ∀ e ∈ events, e.creates key = true → e.after.lookup "asset_id".toList = some id) :
    r'.origin key = some id := by
  have hne : events.filter (fun e => e.creates key) ≠ [] := by
    obtain ⟨e, he, hcreates⟩ := some_creates
    exact List.ne_nil_of_mem (List.mem_filter.mpr ⟨he, hcreates⟩)
  obtain ⟨last, hlast⟩ := List.getLast?_isSome.mpr hne |> Option.isSome_iff_exists.mp
  have hmem := List.mem_filter.mp (List.mem_of_getLast? hlast)
  unfold Registry.origin
  rw [h, List.filter_append, List.getLast?_append, hlast]
  exact all last hmem.1 hmem.2

theorem bindEvent_creates {action : AuditAction} {k caller : Text} {mutable : Bool} {ts : Time}
    (haction : action = .aliasCreate ∨ action = .aliasAttach) :
    (bindEvent action k id mutable caller ts).creates key = true ↔ k = key := by
  rcases haction with rfl | rfl <;> simp [AuditEvent.creates, bindEvent, auditEvent]

theorem bindEvent_asset {action : AuditAction} {k caller : Text} {mutable : Bool} {ts : Time} :
    (bindEvent action k id mutable caller ts).after.lookup "asset_id".toList = some id :=
  mapping_lookup_cons

end Origin

/-! ### The invariant -/

/-- Each alias is its name under the partition of the asset that it was created under. -/
def Originated (r : Registry) : Prop :=
  ∀ key b, r.aliases.get key = some b → ∃ id a name, r.origin key = some id ∧
    r.assets.get id = some a ∧ aliasUnderPartition a.partitionId name = .ok b.aliasName

section Changes

variable {env : Env} {clock : Nat → Time} {op : Op} {r r' : Registry}

theorem Transition.not_creates {id : Text} {a a' : Asset} {action : AuditAction} {e : AuditEvent}
    {key : Text} (h : Transition env clock id a op action a') (records : e.action = action) :
    e.creates key = false := by
  cases h <;> simp [AuditEvent.creates, records]

/-- The bindings keep their names and origins, and the assets their partitions. -/
theorem Originated.keep (h : Originated r)
    (bindings : ∀ key b', r'.aliases.get key = some b' → ∃ b, r.aliases.get key = some b ∧
      b'.aliasName = b.aliasName)
    (origins : ∀ key, r'.origin key = r.origin key)
    (assets : ∀ id a, r.assets.get id = some a → ∃ a', r'.assets.get id = some a' ∧
      a'.partitionId = a.partitionId) : Originated r' := by
  intro key b' hb'
  obtain ⟨b, hb, hname⟩ := bindings key b' hb'
  obtain ⟨id, a, name, horigin, ha, hpath⟩ := h key b hb
  obtain ⟨a', ha', hpid⟩ := assets id a ha
  exact ⟨id, a', name, (origins key).trans horigin, ha', by rw [hpid, hname, hpath]⟩

/-- Rewriting one record leaves the partitions as they are. -/
theorem partition_set {assets : Dict Text Asset} {id : Text} {a a' : Asset}
    (get : assets.get id = some a) (same : a'.partitionId = a.partitionId) {i : Text} {c : Asset}
    (hc : assets.get i = some c) :
    ∃ c', (assets.set id a').get i = some c' ∧ c'.partitionId = c.partitionId := by
  rw [Dict.get_set]
  split
  · rename_i heq
    subst heq
    obtain rfl : a = c := Option.some.inj (get.symm.trans hc)
    exact ⟨a', rfl, same⟩
  · exact ⟨c, hc, rfl⟩

/-- Rewriting one binding leaves the names as they are. -/
theorem aliasName_set {aliases : Dict Text AliasBinding} {found : Text} {b b' : AliasBinding}
    (get : aliases.get found = some b) (same : b'.aliasName = b.aliasName) {key : Text}
    {c : AliasBinding} (hc : (aliases.set found b').get key = some c) :
    ∃ b, aliases.get key = some b ∧ c.aliasName = b.aliasName := by
  rw [Dict.get_set] at hc
  split at hc
  · rename_i heq
    subst heq
    obtain rfl := Option.some.inj hc
    exact ⟨b, get, same⟩
  · exact ⟨c, hc, rfl⟩

theorem Originated.change (h : Originated r) (hi : Indexed r.aliases r.assets)
    (hc : Change env clock r op r') : Originated r' := by
  cases hc with
  | forget => exact h
  | charge => exact h
  | @log op e neutral =>
    refine h.keep (fun _ b hb => ⟨b, hb, rfl⟩) (fun key => ?_) fun _ a ha => ⟨a, ha, rfl⟩
    refine origin_append rfl fun e' he' => ?_
    obtain rfl := List.mem_singleton.mp he'
    cases haction : e'.action <;> simp_all [AuditEvent.creates, AuditAction.Neutral]
  | note get =>
    exact h.keep (fun _ b hb => ⟨b, hb, rfl⟩) (fun _ => rfl) fun _ _ => partition_set get (by rfl)
  | @reserve newId req a new events fresh asset _ _ bindings free logged =>
    intro key b hb
    by_cases hnew : key ∈ new.map Prod.fst
    · obtain ⟨kb, hkb, hkey, hget⟩ := Indexed.bindAll_of_mem (d := r.aliases) hnew
      obtain rfl : kb.2 = b := Option.some.inj (hget.symm.trans hb)
      obtain ⟨name, hbinding⟩ := bindings kb hkb
      refine ⟨newId, a, name, origin_created rfl ?_ ?_, Dict.get_set_self _ _ _, hbinding.path⟩
      · obtain ⟨e, he, caller, ts, rfl⟩ := Forall₂.exists_left logged.flip kb hkb
        exact ⟨_, he, (bindEvent_creates (.inl rfl)).mpr hkey⟩
      · intro e he _
        obtain ⟨kb', -, caller, ts, rfl⟩ := Forall₂.exists_left logged e he
        exact bindEvent_asset
    · obtain ⟨id, c, name, horigin, hc, hpath⟩ := h key b (Indexed.bindAll_of_not_mem hnew ▸ hb)
      refine ⟨id, c, name, (origin_append rfl fun e he => ?_).trans horigin, ?_, hpath⟩
      · obtain ⟨kb', hkb', caller, ts, rfl⟩ := Forall₂.exists_left logged e he
        rw [← Bool.not_eq_true, bindEvent_creates (.inl rfl)]
        rintro rfl
        exact hnew (List.mem_map_of_mem hkb')
      · have hne : id ≠ newId := by
          rintro rfl
          rw [fresh] at hc
          cases hc
        exact (Dict.get_set_ne _ _ hne).trans hc
  | @attach id name caller found mutable a b updatedAt ts get _ binding free =>
    intro key c hc
    change (r.aliases.set found b).get key = some c at hc
    by_cases heq : key = found
    · subst heq
      obtain rfl : b = c := by
        rw [Dict.get_set_self] at hc
        exact Option.some.inj hc
      refine ⟨id, _, name, origin_created rfl ?_ ?_, Dict.get_set_self _ _ _, binding.path⟩
      · exact ⟨_, List.mem_singleton_self _, (bindEvent_creates (.inr rfl)).mpr rfl⟩
      · intro e he _
        obtain rfl := List.mem_singleton.mp he
        exact bindEvent_asset
    · rw [Dict.get_set_ne _ _ heq] at hc
      obtain ⟨i, c', n, horigin, hc', hpath⟩ := h key c hc
      obtain ⟨c'', hc'', hpid⟩ : ∃ c'', (r.assets.set id
          { a with aliases := insert found a.aliases, updatedAt }).get i = some c'' ∧
            c''.partitionId = c'.partitionId := partition_set get (by rfl) hc'
      refine ⟨i, c'', n, (origin_append rfl fun e he => ?_).trans horigin,
        hc'', by rw [hpid, hpath]⟩
      obtain rfl := List.mem_singleton.mp he
      rw [← Bool.not_eq_true, bindEvent_creates (.inr rfl)]
      exact Ne.symm heq
  | @detach _ _ _ found _ _ _ _ _ _ _ _ get own _ bound asset _ =>
    refine h.keep (fun key c hc => ?_) (fun key => ?_) fun _ _ => partition_set asset (by rfl)
    · rw [Dict.get_erase] at hc
      split at hc
      · cases hc
      · exact ⟨c, hc, rfl⟩
    · refine origin_append rfl fun e he => ?_
      obtain rfl := List.mem_singleton.mp he
      rfl
  | drop _ _ _ _ _ asset _ =>
    refine h.keep (fun key c hc => ?_) (fun key => rfl) fun _ _ => partition_set asset (by rfl)
    rw [Dict.get_erase] at hc
    split at hc
    · cases hc
    · exact ⟨c, hc, rfl⟩
  | unbind _ get own _ _ asset =>
    obtain rfl := hi.key_eq get own
    refine h.keep (fun _ _ => aliasName_set get (by rfl)) (fun key => ?_) fun _ _ =>
      partition_set asset (by rfl)
    refine origin_append rfl fun e he => ?_
    obtain rfl := List.mem_singleton.mp he
    rfl
  | rebind _ get own _ _ asset _ _ _ =>
    obtain rfl := hi.key_eq get own
    refine h.keep (fun _ _ => aliasName_set get (by rfl)) (fun key => ?_) fun _ _ =>
      partition_set asset (by rfl)
    refine origin_append rfl fun e he => ?_
    obtain rfl := List.mem_singleton.mp he
    rfl
  | move get step records =>
    refine h.keep (fun _ b hb => ⟨b, hb, rfl⟩) (fun key => ?_)
      fun _ _ => partition_set get step.place.2
    refine origin_append rfl fun e he => ?_
    obtain rfl := List.mem_singleton.mp he
    exact step.not_creates records.action

end Changes

theorem Runs.originated {env : Env} {grace : Int} {calls : List (Op × (Nat → Time))} {r : Registry}
    (h : Runs env (Registry.initial grace) calls r) : Originated r := by
  have hboth := h.of_change (P := fun r => Indexed r.aliases r.assets ∧ Originated r)
    ⟨.empty, fun _ _ hb => by cases hb⟩
    fun _ hr hc => ⟨hr.1.change hc, hr.2.change hr.1 hc⟩
  exact hboth.2

/-! ### Rebinding -/

/-- The rebind goes through when the asset is of the partition, and is a conflict when it is not. -/
def RebindStays (pid space name id caller : Text) (a : Asset) (s : Session) : Prop :=
  (a.partitionId = pid → ∃ b s', rebindAlias space name id caller s = .ok b s') ∧
    (a.partitionId ≠ pid → ∃ e s', rebindAlias space name id caller s = .error e s' ∧
      e.cls = .aliasConflict)

section Rebind

variable {s : Session} {space name id caller key pid : Text} {b : AliasBinding} {a : Asset}

/-- What a rebind of a detached alias to an available asset of its bucket comes down to. -/
theorem rebindAlias_cases (lookup : aliasKey space name = .ok key)
    (get : s.reg.aliases.get key = some b) (hmutable : b.mutable = true)
    (detached : b.assetId = none)
    (target : s.reg.assets.get id = some a) (sameSpace : a.space = b.space)
    (available : a.state = .available) (own : b.qualifiedAlias = .ok key) :
    (∀ e, partitionFromScopedAlias b.aliasName = .error e →
      rebindAlias space name id caller s = .error e s) ∧
    (∀ p, partitionFromScopedAlias b.aliasName = .ok p → a.partitionId ≠ p →
      ∃ e, rebindAlias space name id caller s = .error e s ∧ e.cls = .aliasConflict) ∧
    (partitionFromScopedAlias b.aliasName = .ok a.partitionId →
      ∃ b' s', rebindAlias space name id caller s = .ok b' s') := by
  have hbinding : getBinding space name s = .ok b s := getBinding_eq_key.mpr ⟨key, lookup, get, rfl⟩
  have hasset : getAsset id s = .ok a s := getAsset_eq_ok.mpr ⟨target, rfl⟩
  -- every check before the partitions are compared passes
  have hpast : ∀ {e : Err} {s' : Session} {rest : Unit → RegM AliasBinding},
      (attempt (raiseIf (a.space ≠ b.space)
        { cls := .aliasConflict, message := "cannot rebind an alias across buckets" }) >>= rest) s =
          .error e s' ↔ rest () s = .error e s' := by
    intro e s' rest
    rw [bind_of_ok (attempt_of_ok (raiseIf_eq_ok.mpr (by simp [sameSpace])))]
  have herror :
      ∀ {e : Err}, (∃ p, partitionFromScopedAlias b.aliasName = .ok p ∧ a.partitionId ≠ p ∧
      e = { cls := .aliasConflict, message := "cannot rebind an alias across partitions" }) ∨
        partitionFromScopedAlias b.aliasName = .error e →
      rebindAlias space name id caller s = .error e s := by
    intro e he
    unfold rebindAlias
    rw [bind_of_ok hbinding, bind_of_ok
      (attempt_of_ok (raiseNaming_eq_ok (u := ()).mpr (by simp [hmutable]))),
      bind_of_ok (attempt_of_ok (raiseNaming_eq_ok (u := ()).mpr (by simp [detached]))),
      bind_of_ok hasset, hpast]
    rcases he with ⟨p, hp, hne, rfl⟩ | he
    · rw [bind_of_ok (attempt_of_ok hp)]
      exact bind_of_error (attempt_eq_error.mpr ⟨raiseIf_eq_error.mpr ⟨hne, rfl⟩, rfl⟩)
    · exact bind_of_error (attempt_eq_error.mpr ⟨he, rfl⟩)
  refine ⟨fun e he => herror (.inr he), fun p hp hne => ⟨_, herror (.inl ⟨p, hp, hne, rfl⟩), rfl⟩,
    fun hp => ?_⟩
  simp only [rebindAlias, addAliasToAsset, bind_eq_ok, attempt_eq_ok, raiseNaming_eq_ok,
    raiseIf_eq_ok,
    getAsset_eq_ok, utcnow_eq_ok, putAsset_eq_ok, putBinding_eq_ok, audit_eq_ok, pure_eq_ok]
  exact ⟨_, _, b, s, hbinding, (), s, ⟨by simp [hmutable], rfl⟩, (), s,
    ⟨by simp [detached], rfl⟩, a, s,
    ⟨target, rfl⟩, (), s, ⟨by simp [sameSpace], rfl⟩, a.partitionId, s, ⟨hp, rfl⟩, (), s,
    ⟨by simp, rfl⟩, (), s, ⟨by simp [available], rfl⟩, key, s, ⟨own, rfl⟩, _, _,
    ⟨rfl, rfl⟩, (), _, rfl,
    (), _, ⟨a, _, ⟨target, rfl⟩, _, _, ⟨rfl, rfl⟩, rfl⟩, (), _, rfl, rfl, rfl⟩

/-- Reading a partition off an alias gives the partition only if it has one segment. -/
theorem partition_read_back (canonical : Canonical pid) :
    normalizePartitionId (partitionSlash pid).1 = .ok pid ↔ '/' ∉ pid := by
  constructor
  · intro h
    have htrim := (normalizeRelativeAlias_eq_ok.mp h).1
    rw [trimPath_noSlash (partitionSlash_noSlash _)] at htrim
    rw [← htrim]
    exact fun hmem => partitionSlash_noSlash pid ((strip_within isSpace _).subset hmem)
  · intro h
    rw [partitionSlash_eq_self_iff.mpr h]
    exact canonical

/-- The partition that is read off an alias is that of its first segment, which it shares with the
partition it was created in. -/
theorem partitionFromScopedAlias_eq (canonical : Canonical pid) {n path : Text}
    (hpath : aliasUnderPartition pid n = .ok path) :
    partitionFromScopedAlias path = normalizePartitionId (partitionSlash pid).1 := by
  obtain ⟨rel, -, root, hroot, hscoped⟩ : ∃ rel, normalizeRelativeAlias n = .ok rel ∧
      ∃ root, normalizePartitionId pid = .ok root ∧
        (if isUnder root rel then rel else root ++ '/' :: rel) = path := by
    simpa [aliasUnderPartition] using hpath
  obtain rfl : pid = root := Except.ok.inj (canonical.symm.trans hroot)
  have hunder : isUnder pid path = true := by
    split at hscoped
    · rename_i hunder
      exact hscoped ▸ hunder
    · exact hscoped ▸ isUnder_iff.mpr (.inr ⟨rel, rfl⟩)
  rw [partitionFromScopedAlias, isUnder_first hunder]

end Rebind

/-- A detached mutable alias stays in the partition it was created in exactly when that partition
has one segment; otherwise only for assets that are neither of that partition nor of the one that
its first segment gives. -/
theorem rebind_stays_iff {env : Env} {grace : Int} {calls : List (Op × (Nat → Time))} {r : Registry}
    {space name id caller key pid : Text} {b : AliasBinding} {a : Asset} {clock : Nat → Time}
    (h : Runs env (Registry.initial grace) calls r) (lookup : aliasKey space name = .ok key)
    (get : r.aliases.get key = some b) (isMutable : b.mutable = true) (detached : b.assetId = none)
    (created : r.CreatedIn key pid) (canonical : Canonical pid)
    (target : r.assets.get id = some a) (sameSpace : a.space = b.space)
    (available : a.state = .available) :
    RebindStays pid space name id caller a ⟨r, clock⟩ ↔ '/' ∉ pid ∨
      (a.partitionId ≠ pid ∧ ∃ first, normalizePartitionId (partitionSlash pid).1 = .ok first ∧
        a.partitionId ≠ first) := by
  obtain ⟨refused, conflict, rebound⟩ :=
    @rebindAlias_cases ⟨r, clock⟩ space name id caller key b a lookup
    get isMutable detached target sameSpace available (h.indexed.own key b get)
  -- the alias is a name under the partition
  obtain ⟨id1, a1, n, horigin, ha1, hpath⟩ := h.originated key b get
  obtain ⟨id2, a2, horigin2, ha2, rfl⟩ := created
  obtain rfl : id1 = id2 := Option.some.inj (horigin.symm.trans horigin2)
  obtain rfl : a1 = a2 := Option.some.inj (ha1.symm.trans ha2)
  rw [partitionFromScopedAlias_eq canonical hpath] at refused conflict rebound
  generalize a1.partitionId = pid at refused conflict rebound canonical
  have hread := partition_read_back canonical
  constructor
  · rintro ⟨same, other⟩
    by_cases hslash : '/' ∈ pid
    · refine .inr ?_
      cases hfirst : normalizePartitionId (partitionSlash pid).1 with
      | error e =>
        have hraises := refused e hfirst
        by_cases hpid : a.partitionId = pid
        · obtain ⟨b', s', hok⟩ := same hpid
          rw [hraises] at hok
          cases hok
        · obtain ⟨e', s', herror, hcls⟩ := other hpid
          rw [hraises] at herror
          cases herror
          rw [normalizeRelativeAlias_error hfirst] at hcls
          cases hcls
      | ok first =>
        have hne : first ≠ pid := fun heq => hread.mp (heq ▸ hfirst) hslash
        by_cases hpid : a.partitionId = pid
        · obtain ⟨b', s', hok⟩ := same hpid
          obtain ⟨e, herror, -⟩ := conflict first hfirst (by rw [hpid]; exact hne.symm)
          rw [herror] at hok
          cases hok
        · refine ⟨hpid, first, rfl, fun heq => ?_⟩
          obtain ⟨b', s', hok⟩ := rebound (by rw [hfirst, heq])
          obtain ⟨e, s'', herror, -⟩ := other hpid
          rw [herror] at hok
          cases hok
    · exact .inl hslash
  · rintro (hslash | ⟨hpid, first, hfirst, hne⟩)
    · have hfirst := hread.mpr hslash
      refine ⟨fun hpid => rebound (by rw [hfirst, hpid]), fun hpid => ?_⟩
      obtain ⟨e, herror, hcls⟩ := conflict pid hfirst hpid
      exact ⟨e, _, herror, hcls⟩
    · refine ⟨fun heq => absurd heq hpid, fun _ => ?_⟩
      obtain ⟨e, herror, hcls⟩ := conflict first hfirst hne
      exact ⟨e, _, herror, hcls⟩

/-- An asset of the partition is uploaded under the mutable name `x` and the name `y`, and `x` is
detached. -/
def detachCalls (pid scopedName : Text) : List (Op × (Nat → Time)) :=
  [(.reserveAsset "a1".toList
      { space := "cache".toList, partitionId := pid
        aliases := [("x".toList, true), ("y".toList, false)], ownerServiceId := "svc".toList },
    fun _ => 0),
   (.commitAsset "a1".toList 3 "sha256:00".toList "svc".toList none none, fun _ => 0),
   (.detachMutableAlias "cache".toList scopedName "svc".toList, fun _ => 0)]

/-- The alias is detached, and its asset is still available. -/
def isDetached (pid key : Text) (r : Registry) : Bool :=
  (r.aliases.get key).any (fun b => b.mutable && b.assetId == none && b.space == "cache".toList) &&
    r.origin key == some "a1".toList &&
    (r.assets.get "a1".toList).any fun a =>
      a.partitionId == pid && a.space == "cache".toList && a.state == .available

theorem isDetached_iff {pid key : Text} {r : Registry} (h : isDetached pid key r = true) :
    ∃ b a, r.aliases.get key = some b ∧ b.mutable = true ∧ b.assetId = none ∧ r.CreatedIn key pid ∧
      r.assets.get "a1".toList = some a ∧ a.space = b.space ∧ a.state = .available ∧
      a.partitionId = pid := by
  simp only [isDetached, Bool.and_eq_true, Option.any_eq_true, beq_iff_eq] at h
  obtain ⟨⟨⟨b, hb, ⟨hmutable, hdetached⟩, hspace⟩, horigin⟩, a, ha, ⟨hpid, haspace⟩, hstate⟩ := h
  exact ⟨b, a, hb, hmutable, hdetached, ⟨_, a, horigin, ha, hpid⟩, ha, haspace.trans hspace.symm,
    hstate, hpid⟩

/-- An alias of the partition `m` goes back to its asset. -/
theorem rebind_stays_single :
    ∃ r a, Runs plainEnv (.initial 0) (detachCalls "m".toList "m/x".toList) r ∧
    r.assets.get "a1".toList = some a ∧
    RebindStays "m".toList "cache".toList "m/x".toList "a1".toList "svc".toList a
      ⟨r, fun _ => 0⟩ := by
  have hplays : (playCalls plainEnv (.initial 0) (detachCalls "m".toList "m/x".toList)).any
      (isDetached "m".toList "cache/m/x".toList) = true := by decide +kernel
  obtain ⟨r, hruns, hend⟩ := exists_runs_of_play hplays
  obtain ⟨b, a, hb, hmutable, hdetached, hcreated, ha, hspace, hstate, -⟩ := isDetached_iff hend
  exact ⟨r, a, hruns, ha, (rebind_stays_iff hruns (by decide +kernel) hb hmutable hdetached hcreated
    (by unfold Canonical; decide +kernel) ha hspace hstate).mpr (.inl (by decide))⟩

/-- An alias of the partition `a/b` cannot go back to its asset. -/
theorem rebind_refused_in_partition : ∃ r b a,
    Runs plainEnv (.initial 0) (detachCalls "a/b".toList "a/b/x".toList) r ∧
    Canonical "a/b".toList ∧ r.aliases.get "cache/a/b/x".toList = some b ∧ b.mutable = true ∧
    b.assetId = none ∧ r.CreatedIn "cache/a/b/x".toList "a/b".toList ∧
    r.assets.get "a1".toList = some a ∧ a.space = b.space ∧ a.state = .available ∧
    a.partitionId = "a/b".toList ∧
    ∃ e s', rebindAlias "cache".toList "a/b/x".toList "a1".toList "svc".toList ⟨r, fun _ => 0⟩ =
      .error e s' ∧ e.cls = .aliasConflict := by
  have hplays : (playCalls plainEnv (.initial 0) (detachCalls "a/b".toList "a/b/x".toList)).any
      (fun r => isDetached "a/b".toList "cache/a/b/x".toList r &&
        raises (fun e _ => e.cls == .aliasConflict) (rebindAlias "cache".toList "a/b/x".toList
          "a1".toList "svc".toList ⟨r, fun _ => 0⟩)) = true := by decide +kernel
  obtain ⟨r, hruns, hend⟩ := exists_runs_of_play hplays
  obtain ⟨hdetached, hraises⟩ := Bool.and_eq_true _ _ ▸ hend
  obtain ⟨b, a, hb, hmutable, hnone, hcreated, ha, hspace, hstate, hpid⟩ := isDetached_iff hdetached
  obtain ⟨e, s', hrebind, hcls⟩ := exists_error_of_raises hraises
  exact ⟨r, b, a, hruns, by
    unfold Canonical; decide +kernel, hb, hmutable, hnone, hcreated, ha, hspace,
    hstate, hpid, e, s', hrebind, by simpa using hcls⟩

end AssetStore
