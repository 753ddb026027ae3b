import AssetStore.Guard.Confinement
import AssetStore.Registry.Placement

/-! The names of a reservation. A requested name is normalized, put under the partition unless it
already starts with it, and normalized again to make the key of its binding. Two names can meet on
the way, and then one binding stands for both. -/

namespace AssetStore

open Lib

/-! ### What a request asks for -/

/-- The distinct names of a request, normalized. -/
def ReserveRequest.names (req : ReserveRequest) : Finset Text :=
  (req.aliases.filterMap fun spec => (normalizeRelativeAlias spec.1).toOption).toFinset

/-- The key under which a normalized name of the request is bound. -/
def ReserveRequest.key (req : ReserveRequest) (name : Text) : Except Err Text := do
  let normSpace ← normalizeSpace req.space
  let normPartition ← normalizePartitionId req.partitionId
  scopedKey normSpace normPartition name

/-- The number of alias creations in the audit log. -/
def Registry.creations (r : Registry) : Nat :=
  r.auditEvents.countP fun e => e.action == .aliasCreate

/-- Each name of the request has a binding of its own, with the mutability that was asked for. -/
structure FaithfulReservation (req : ReserveRequest) (newId : Text) (a : Asset) (r r' : Registry) :
    Prop where
  apart : ∀ n ∈ req.names, ∀ n' ∈ req.names, req.key n = req.key n' → n = n'
  bindings : r'.aliases.keys.length = r.aliases.keys.length + req.names.card
  events : r'.creations = r.creations + req.names.card
  listed : a.aliases.card = req.names.card
  mutability : ∀ spec ∈ req.aliases, ∃ name key b, normalizeRelativeAlias spec.1 = .ok name ∧
    req.key name = .ok key ∧ r'.aliases.get key = some b ∧ b.assetId = some newId ∧
      b.mutable = spec.2

/-- Under the partition two requested names have one path. -/
def SharesPath (partitionId name name' : Text) : Prop :=
  boundPath (trimPath (trimPath partitionId)) name =
    boundPath (trimPath (trimPath partitionId)) name'

/-- No two entries of the request share a path, except for spellings of one name that ask for the
same. -/
def ReserveRequest.Separate (req : ReserveRequest) : Prop :=
  ∀ spec ∈ req.aliases, ∀ spec' ∈ req.aliases, SharesPath req.partitionId spec.1 spec'.1 →
    trimPath spec.1 = trimPath spec'.1 ∧ spec.2 = spec'.2

/-! ### The mapping of the names -/

section Specs

variable {specs : AliasSpecs} {d : Dict Text Bool}

/-- The mapping holds the normalized names, each with the mutability of one of its entries. -/
theorem normalizeAliasSpecs_eq_ok (h : normalizeAliasSpecs specs = .ok d) :
    (∀ spec ∈ specs, normalizeRelativeAlias spec.1 = .ok (trimPath spec.1) ∧
      trimPath spec.1 ∈ d.keys) ∧
    ∀ name m, d.get name = some m → ∃ spec ∈ specs, trimPath spec.1 = name ∧ spec.2 = m := by
  induction specs using List.reverseRecOn generalizing d with
  | nil =>
    obtain rfl : (Dict.empty : Dict Text Bool) = d := Except.ok.inj h
    exact ⟨by simp, fun name m hget => by cases hget⟩
  | append_singleton specs last ih =>
    simp only [normalizeAliasSpecs, List.foldlM_append, List.foldlM_cons, List.foldlM_nil,
      except_bind_eq_ok, except_pure_eq_ok] at h
    obtain ⟨before, hbefore, _, ⟨name, hname, rfl⟩, rfl⟩ := h
    obtain ⟨hall, hget⟩ := ih hbefore
    obtain rfl := (normalizeRelativeAlias_eq_ok.mp hname).1
    have hstays : ∀ n ∈ before.keys, n ∈ (before.set (trimPath last.1) last.2).keys := by
      intro n hn
      rw [Dict.mem_keys] at hn ⊢
      rw [Dict.get_set]
      split
      · rfl
      · exact hn
    refine ⟨fun spec hspec => ?_, fun n m hn => ?_⟩
    · rcases List.mem_append.mp hspec with hspec | hspec
      · exact ⟨(hall spec hspec).1, hstays _ (hall spec hspec).2⟩
      · obtain rfl := List.mem_singleton.mp hspec
        exact ⟨hname, by simp [Dict.mem_keys]⟩
    · rw [Dict.get_set] at hn
      split at hn
      · rename_i heq
        exact ⟨last, by simp, heq.symm, Option.some.inj hn⟩
      · obtain ⟨spec, hspec, hrest⟩ := hget n m hn
        exact ⟨spec, List.mem_append_left _ hspec, hrest⟩

theorem mem_specs_keys (h : normalizeAliasSpecs specs = .ok d) {name : Text} :
    name ∈ d.keys ↔ ∃ spec ∈ specs, trimPath spec.1 = name := by
  obtain ⟨hall, hget⟩ := normalizeAliasSpecs_eq_ok h
  constructor
  · intro hmem
    obtain ⟨m, hm⟩ := Option.isSome_iff_exists.mp ((d.mem_keys name).mp hmem)
    obtain ⟨spec, hspec, hname, -⟩ := hget name m hm
    exact ⟨spec, hspec, hname⟩
  · rintro ⟨spec, hspec, rfl⟩
    exact (hall spec hspec).2

/-- The distinct names of a request are the keys of the mapping. -/
theorem names_eq_keys {req : ReserveRequest} (h : normalizeAliasSpecs req.aliases = .ok d) :
    req.names = d.keys.toFinset := by
  ext name
  simp only [ReserveRequest.names, List.mem_toFinset, List.mem_filterMap, mem_specs_keys h]
  refine exists_congr fun spec => and_congr_right fun hspec => ?_
  rw [((normalizeAliasSpecs_eq_ok h).1 spec hspec).1]
  simp [Except.toOption]

end Specs

/-! ### The keys -/

section Keys

variable {space pid : Text}

/-- The key of a requested name is its path under the partition. -/
theorem scopedKey_trimPath (hspace : space ∈ storageBuckets) {name key : Text}
    (h : scopedKey space pid (trimPath name) = .ok key) :
    key = space ++ '/' :: boundPath (trimPath pid) name := by
  simp only [scopedKey, aliasUnderPartition, normalizePartitionId, except_bind_eq_ok,
    except_pure_eq_ok] at h
  obtain ⟨_, ⟨rel, hrel, root, hroot, rfl⟩, hkey⟩ := h
  obtain ⟨b, path, hb, hpath, rfl⟩ := qualifiedAlias_eq_ok.mp hkey
  obtain rfl : space = b := Except.ok.inj ((normalizeBucket_of_mem hspace).symm.trans hb)
  obtain rfl := (normalizeRelativeAlias_eq_ok.mp hrel).1
  obtain rfl := (normalizeRelativeAlias_eq_ok.mp hroot).1
  obtain rfl := (normalizeRelativeAlias_eq_ok.mp hpath).1
  rfl

theorem bindAll_keys_length : ∀ {new : List (Text × AliasBinding)} {d : Dict Text AliasBinding},
    (new.map Prod.fst).Nodup → (∀ kb ∈ new, d.get kb.1 = none) →
    (bindAll d new).keys.length = d.keys.length + new.length
  | [], _, _, _ => rfl
  | kb :: rest, d, hnodup, hfree => by
    obtain ⟨hnot, hnodup⟩ := List.nodup_cons.mp hnodup
    have hrest : ∀ kb' ∈ rest, (d.set kb.1 kb.2).get kb'.1 = none := by
      intro kb' hmem
      have hne : kb'.1 ≠ kb.1 := fun heq => hnot (heq ▸ List.mem_map_of_mem hmem)
      rw [Dict.get_set_ne _ _ hne]
      exact hfree kb' (List.mem_cons_of_mem _ hmem)
    have hnew : (d.set kb.1 kb.2).keys = d.keys ++ [kb.1] :=
      Dict.keys_set_of_new (hfree kb List.mem_cons_self)
    calc (bindAll d (kb :: rest)).keys.length
        = (bindAll (d.set kb.1 kb.2) rest).keys.length := rfl
      _ = (d.set kb.1 kb.2).keys.length + rest.length := bindAll_keys_length hnodup hrest
      _ = d.keys.length + (kb :: rest).length := by
        rw [hnew]
        simp only [List.length_append, List.length_cons, List.length_nil]
        omega

end Keys

/-! ### A reservation that succeeds -/

/-- What a reservation binds: the keys of the mapping in their order, all of them free before. -/
structure Binds (req : ReserveRequest) (newId : Text) (a : Asset) (r r' : Registry) (space : Text)
    (d : Dict Text Bool) (new : List (Text × AliasBinding)) : Prop where
  bucket : space ∈ storageBuckets
  specs : normalizeAliasSpecs req.aliases = .ok d
  key : ∀ name, req.key name = scopedKey space (trimPath req.partitionId) name
  each : List.Forall₂ (fun name kb => req.key name = .ok kb.1 ∧ kb.2.assetId = some newId ∧
    (d.get name).getD false = kb.2.mutable) d.keys new
  listed : a.aliases = (new.map Prod.fst).toFinset
  free : ∀ kb ∈ new, r.aliases.get kb.1 = none
  aliases : r'.aliases = bindAll r.aliases new
  creations : r'.creations = r.creations + new.length

section Reserve

variable {env : Env} {newId : Text} {req : ReserveRequest} {a : Asset} {s s' : Session}

theorem countP_bindEvents {id : Text} {new : List (Text × AliasBinding)} {events : List AuditEvent}
    (h : List.Forall₂ (fun kb e => ∃ caller ts,
      e = bindEvent .aliasCreate kb.1 id kb.2.mutable caller ts) new events) :
    events.countP (fun e => e.action == .aliasCreate) = new.length := by
  induction h with
  | nil => rfl
  | cons he _ ih =>
    obtain ⟨caller, ts, rfl⟩ := he
    rw [List.countP_cons, ih]
    rfl

theorem auditReservation_creations {owner : Text} {u : Unit}
    (h : auditReservation newId owner req.reservedBytes s = .ok u s') :
    s'.reg.aliases = s.reg.aliases ∧ s'.reg.creations = s.reg.creations := by
  cases hres : req.reservedBytes with
  | none =>
    rw [hres] at h
    obtain ⟨-, rfl⟩ := pure_eq_ok.mp h
    exact ⟨rfl, rfl⟩
  | some n =>
    rw [hres] at h
    obtain rfl := audit_eq_ok.mp h
    refine ⟨rfl, ?_⟩
    simp only [Registry.creations, List.countP_append]
    rfl

theorem reserveAsset_binds (h : reserveAsset env newId req s = .ok a s') :
    ∃ space d new, Binds req newId a s.reg s'.reg space d new := by
  simp only [reserveAsset, bind_eq_ok, attempt_eq_ok, utcnow_eq_ok, putAsset_eq_ok, pure_eq_ok] at h
  obtain ⟨space, _, ⟨hspace, rfl⟩, pid, _, ⟨hpid, rfl⟩, d, _, ⟨hspecs, rfl⟩, _, s1, hfree, _, s2,
    hadmit, _, _, ⟨rfl, rfl⟩, keys, _, ⟨hkeys, rfl⟩, _, _, ⟨-, rfl⟩, _, _, ⟨-, rfl⟩, _,
      _, rfl, _, s3,
    hbind, _, s4, haudit, rfl, rfl⟩ := h
  have hsweeps := (requireNamesAvailable_sweeps _).ok hfree
  have hfree := requireNamesAvailable_free hfree
  have hreg2 : s2.reg = s1.reg := (Within.admitReservation (R := Same fun r => r) _).ok hadmit
  obtain ⟨new, events, hreg3, hnew, hevents⟩ := bindNames_eq_ok hbind
  have hkeys' := mapM_scopedKey hnew
  rw [List.map_map, Function.comp_def, List.map_id', hkeys] at hkeys'
  obtain rfl := (normalizeRelativeAlias_eq_ok.mp hpid).1
  obtain ⟨haliases, hcreations⟩ := auditReservation_creations haudit
  have hkey : ∀ name, req.key name = scopedKey space (trimPath req.partitionId) name := by
    intro name
    rw [ReserveRequest.key, hspace, hpid]
    rfl
  have heach : List.Forall₂ (fun name kb => req.key name = .ok kb.1 ∧ kb.2.assetId = some newId ∧
      (d.get name).getD false = kb.2.mutable) d.keys new := by
    refine List.Forall₂.imp (fun name kb hbinds => ?_) (List.forall₂_map_left_iff.mp hnew)
    obtain ⟨path, hpath, hqualified, hb⟩ := hbinds
    rw [hkey, scopedKey, hb]
    exact ⟨by simp [hpath, hqualified], rfl, rfl⟩
  refine ⟨space, d, new, (normalizeBucket_eq_ok.mp hspace).2, hspecs, hkey, heach, ?_, ?_, ?_, ?_⟩
  · simp [Except.ok.inj hkeys']
  · intro kb hkb
    obtain ⟨name, hname, hkb', -⟩ := Forall₂.exists_left heach kb hkb
    obtain ⟨key, hscoped, hget, -⟩ := hfree name hname
    obtain rfl : kb.1 = key := by
      rw [hkey, hscoped] at hkb'
      exact (Except.ok.inj hkb').symm
    rw [hsweeps.reg] at hget
    exact hget
  · rw [haliases, hreg3]
    simp only [Session.put, Session.tick_reg, hreg2]
    rw [hsweeps.reg]
  · rw [hcreations, hreg3]
    simp only [Registry.creations, Session.put, Session.tick_reg, hreg2, List.countP_append,
      countP_bindEvents hevents]
    rw [hsweeps.reg]

/-- The asset that a reservation stores. -/
theorem reserveAsset_stores (h : reserveAsset env newId req s = .ok a s') :
    s'.reg.assets = s.reg.assets.set newId a ∧ a.assetId = newId ∧ a.state = .pending ∧
      a.ownerServiceId = req.ownerServiceId ∧ normalizeSpace req.space = .ok a.space ∧
      buildStorageKey a.partitionId newId = .ok a.storageKey := by
  simp only [reserveAsset, bind_eq_ok, attempt_eq_ok, utcnow_eq_ok, putAsset_eq_ok, pure_eq_ok] at h
  obtain ⟨space, _, ⟨hspace, rfl⟩, pid, _, ⟨-, rfl⟩, d, _, ⟨-, rfl⟩, _, s1, hfree, _, s2,
    hadmit, _, _,
    ⟨rfl, rfl⟩, keys, _, ⟨-, rfl⟩, _, _, ⟨hstorage, rfl⟩, _, _, ⟨-, rfl⟩, _, _, rfl, _, s3,
    hbind, _, s4,
    haudit, rfl, rfl⟩ := h
  have hreg1 := ((requireNamesAvailable_sweeps _).ok hfree).reg
  have hreg2 : s2.reg = s1.reg := (Within.admitReservation (R := Same fun r => r) _).ok hadmit
  obtain ⟨new, events, hreg3, -, -⟩ := bindNames_eq_ok hbind
  have hreg4 := (auditReservation_keeps (f := Registry.assets) (fun _ _ => rfl) _).ok haudit
  refine ⟨?_, rfl, rfl, rfl, hspace, hstorage⟩
  rw [hreg4, hreg3]
  simp only [Session.put, Session.tick_reg, hreg2]
  rw [hreg1]

namespace Binds

variable {r r' : Registry} {space : Text} {d : Dict Text Bool} {new : List (Text × AliasBinding)}

/-- The key of a requested name is its path under the partition. -/
theorem key_of_mem (h : Binds req newId a r r' space d new) {spec : Text × Bool}
    (hspec : spec ∈ req.aliases) : ∃ kb ∈ new, req.key (trimPath spec.1) = .ok kb.1 ∧
      kb.1 = space ++ '/' :: boundPath (trimPath (trimPath req.partitionId)) spec.1 := by
  obtain ⟨kb, hkb, hkey, -⟩ := Forall₂.exists_left h.each.flip _
    ((normalizeAliasSpecs_eq_ok h.specs).1 spec hspec).2
  exact ⟨kb, hkb, hkey, scopedKey_trimPath h.bucket (h.key _ ▸ hkey)⟩

/-- A new binding is that of a requested name, with the mutability of one of its entries. -/
theorem spec_of_mem (h : Binds req newId a r r' space d new) {kb : Text × AliasBinding}
    (hkb : kb ∈ new) : ∃ spec ∈ req.aliases, kb.2.mutable = spec.2 ∧ kb.2.assetId = some newId ∧
      kb.1 = space ++ '/' :: boundPath (trimPath (trimPath req.partitionId)) spec.1 := by
  obtain ⟨name, hname, hkey, htarget, hmutable⟩ := Forall₂.exists_left h.each kb hkb
  obtain ⟨m, hm⟩ := Option.isSome_iff_exists.mp ((d.mem_keys name).mp hname)
  obtain ⟨spec, hspec, rfl, rfl⟩ := (normalizeAliasSpecs_eq_ok h.specs).2 name m hm
  rw [hm] at hmutable
  exact ⟨spec, hspec, hmutable.symm, htarget, scopedKey_trimPath h.bucket (h.key _ ▸ hkey)⟩

theorem key_eq_iff (h : Binds req newId a r r' space d new) {spec spec' : Text × Bool}
    (hspec : spec ∈ req.aliases) (hspec' : spec' ∈ req.aliases) :
    req.key (trimPath spec.1) = req.key (trimPath spec'.1) ↔
      SharesPath req.partitionId spec.1 spec'.1 := by
  obtain ⟨kb, -, hkey, hpath⟩ := h.key_of_mem hspec
  obtain ⟨kb', -, hkey', hpath'⟩ := h.key_of_mem hspec'
  rw [hkey, hkey', hpath, hpath', SharesPath]
  simp

theorem mem_names (h : Binds req newId a r r' space d new) {name : Text} :
    name ∈ req.names ↔ ∃ spec ∈ req.aliases, trimPath spec.1 = name := by
  rw [names_eq_keys h.specs, List.mem_toFinset, mem_specs_keys h.specs]

/-- There are as many new bindings as names. -/
theorem card_names (h : Binds req newId a r r' space d new) : req.names.card = new.length := by
  rw [names_eq_keys h.specs, List.toFinset_card_of_nodup d.nodup, h.each.length_eq]

/-- Names that do not meet are bound under distinct keys. -/
theorem nodup_of_separate (h : Binds req newId a r r' space d new) (separate : req.Separate) :
    (new.map Prod.fst).Nodup := by
  have hmap : (new.map fun kb => Except.ok (ε := Err) kb.1) = d.keys.map req.key := by
    have heach := h.each
    clear h separate
    generalize d.keys = names at heach
    induction heach with
    | nil => rfl
    | cons hkb _ ih => rw [List.map_cons, List.map_cons, ih, hkb.1]
  have hnodup : (d.keys.map req.key).Nodup := by
    refine d.nodup.map_on fun name hname name' hname' hkey => ?_
    obtain ⟨spec, hspec, rfl⟩ := (mem_specs_keys h.specs).mp hname
    obtain ⟨spec', hspec', rfl⟩ := (mem_specs_keys h.specs).mp hname'
    exact (separate spec hspec spec' hspec' ((h.key_eq_iff hspec hspec').mp hkey)).1
  rw [← hmap] at hnodup
  rw [List.Nodup, List.pairwise_map] at hnodup ⊢
  exact hnodup.imp fun hne heq => hne (congrArg _ heq)

theorem faithful_of_separate (h : Binds req newId a r r' space d new) (separate : req.Separate) :
    FaithfulReservation req newId a r r' where
  apart n hn n' hn' hkey := by
    obtain ⟨spec, hspec, rfl⟩ := h.mem_names.mp hn
    obtain ⟨spec', hspec', rfl⟩ := h.mem_names.mp hn'
    exact (separate spec hspec spec' hspec' ((h.key_eq_iff hspec hspec').mp hkey)).1
  bindings := by
    rw [h.aliases, bindAll_keys_length (h.nodup_of_separate separate) h.free, h.card_names]
  events := by rw [h.creations, h.card_names]
  listed := by
    rw [h.listed, List.toFinset_card_of_nodup (h.nodup_of_separate separate), List.length_map,
      h.card_names]
  mutability spec hspec := by
    obtain ⟨kb, hkb, hkey, hpath⟩ := h.key_of_mem hspec
    -- the binding that stays is that of an entry with the same path
    obtain ⟨kb', hkb', hsame, hget⟩ := Indexed.bindAll_of_mem (d := r.aliases)
      (List.mem_map_of_mem (f := Prod.fst) hkb)
    obtain ⟨spec', hspec', hmutable, htarget, hpath'⟩ := h.spec_of_mem hkb'
    have hshares : SharesPath req.partitionId spec.1 spec'.1 := by
      rw [hpath, hpath'] at hsame
      rw [SharesPath]
      simpa using hsame.symm
    refine ⟨trimPath spec.1, kb.1, kb'.2,
      ((normalizeAliasSpecs_eq_ok h.specs).1 spec hspec).1, hkey, h.aliases ▸ hget, htarget, ?_⟩
    rw [hmutable, (separate spec hspec spec' hspec' hshares).2]

theorem separate_of_faithful (h : Binds req newId a r r' space d new)
    (faithful : FaithfulReservation req newId a r r') : req.Separate := by
  intro spec hspec spec' hspec' hshares
  have hkeys := (h.key_eq_iff hspec hspec').mpr hshares
  have hname : trimPath spec.1 = trimPath spec'.1 :=
    faithful.apart _ (h.mem_names.mpr ⟨spec, hspec, rfl⟩)
      _ (h.mem_names.mpr ⟨spec', hspec', rfl⟩) hkeys
  obtain ⟨_, key, b, hn, hkey, hget, -, hmutable⟩ := faithful.mutability spec hspec
  obtain ⟨_, key', b', hn', hkey', hget', -, hmutable'⟩ := faithful.mutability spec' hspec'
  obtain rfl := (normalizeRelativeAlias_eq_ok.mp hn).1
  obtain rfl := (normalizeRelativeAlias_eq_ok.mp hn').1
  obtain rfl : key = key' := Except.ok.inj (hkey.symm.trans (hkeys.trans hkey'))
  obtain rfl : b = b' := Option.some.inj (hget.symm.trans hget')
  exact ⟨hname, hmutable.symm.trans hmutable'⟩

end Binds

end Reserve

/-! ### Tidy names -/

section Tidy

variable {root n n' : Text}

/-- A tidy name under a tidy partition is not trimmed any further. -/
theorem boundPath_tidy (hroot : trimPath root = root) (hne : root ≠ []) (hn : trimPath n = n)
    (hn0 : n ≠ []) : boundPath root n = if isUnder root n then n else root ++ '/' :: n := by
  have hlead : lead isSpace isSlash root = root := lead_of_trim _ _ hroot
  have htrail : trail isSpace isSlash n = n := trail_of_trim _ _ hn
  have hjoined : trimPath (root ++ '/' :: n) = root ++ '/' :: n := by
    refine trim_of_ends _ _ ?_ ?_
    · rw [lead_append (by rwa [hlead]), hlead]
    · rw [show root ++ '/' :: n = (root ++ ['/']) ++
        n by simp, trail_append (by rwa [htrail]), htrail]
  simp only [boundPath, hn]
  split
  · exact hn
  · exact hjoined

/-- Two tidy names meet when one of them is the other with the partition in front. -/
theorem boundPath_tidy_eq_iff (hroot : trimPath root = root) (hne : root ≠ []) (hn : trimPath n = n)
    (hn0 : n ≠ []) (hn' : trimPath n' = n') (hn0' : n' ≠ []) :
    boundPath root n = boundPath root n' ↔ n = n' ∨
      (isUnder root n = false ∧ n' = root ++ '/' :: n) ∨
        isUnder root n' = false ∧ n = root ++ '/' :: n' := by
  have hjoined : ∀ m : Text, isUnder root (root ++ '/' :: m) = true := fun m =>
    isUnder_iff.mpr (.inr ⟨m, rfl⟩)
  rw [boundPath_tidy hroot hne hn hn0, boundPath_tidy hroot hne hn' hn0']
  cases hu : isUnder root n <;> cases hu' : isUnder root n' <;>
    simp only [Bool.false_eq_true, if_true, if_false, true_and, false_and, or_false, false_or,
      reduceCtorEq]
  · constructor
    · intro h
      exact .inl (by simpa using h)
    · rintro (rfl | rfl | rfl)
      · rfl
      · rw [hjoined] at hu'
        cases hu'
      · rw [hjoined] at hu
        cases hu
  · constructor
    · intro h
      exact .inr h.symm
    · rintro (rfl | rfl)
      · rw [hu] at hu'
        cases hu'
      · rfl
  · constructor
    · intro h
      exact .inr h
    · rintro (rfl | rfl)
      · rw [hu] at hu'
        cases hu'
      · rfl

end Tidy

/-- No name is asked for twice in different ways, and no name is another one with the partition in
front. -/
def ReserveRequest.Plain (req : ReserveRequest) : Prop :=
  ∀ spec ∈ req.aliases, ∀ spec' ∈ req.aliases,
    (spec.1 = spec'.1 → spec.2 = spec'.2) ∧
      (isUnder req.partitionId spec.1 = false → spec'.1 ≠ req.partitionId ++ '/' :: spec.1)

theorem separate_iff_plain {req : ReserveRequest} (hpid : Canonical req.partitionId)
    (hnames : ∀ spec ∈ req.aliases, normalizeRelativeAlias spec.1 = .ok spec.1) :
    req.Separate ↔ req.Plain := by
  obtain ⟨hroot, hne⟩ := hpid.trimPath_eq
  have hmeet : ∀ spec ∈ req.aliases, ∀ spec' ∈ req.aliases,
      (SharesPath req.partitionId spec.1 spec'.1 ↔ spec.1 = spec'.1 ∨
        (isUnder req.partitionId spec.1 = false ∧ spec'.1 = req.partitionId ++ '/' :: spec.1) ∨
          isUnder req.partitionId spec'.1 = false ∧
            spec.1 = req.partitionId ++ '/' :: spec'.1) := by
    intro spec hspec spec' hspec'
    obtain ⟨hn, hn0, -⟩ := normalizeRelativeAlias_eq_ok.mp (hnames spec hspec)
    obtain ⟨hn', hn0', -⟩ := normalizeRelativeAlias_eq_ok.mp (hnames spec' hspec')
    rw [SharesPath, hroot, hroot]
    exact boundPath_tidy_eq_iff hroot hne hn hn0 hn' hn0'
  have htrim : ∀ spec ∈ req.aliases, trimPath spec.1 = spec.1 := fun spec hspec =>
    (normalizeRelativeAlias_eq_ok.mp (hnames spec hspec)).1
  -- a name is never itself with the partition in front
  have hlonger : ∀ n : Text, n ≠ req.partitionId ++ '/' :: n := by
    intro n hn
    have := congrArg List.length hn
    simp only [List.length_append, List.length_cons] at this
    omega
  constructor
  · intro separate spec hspec spec' hspec'
    have hsep := separate spec hspec spec' hspec'
    rw [hmeet spec hspec spec' hspec', htrim spec hspec, htrim spec' hspec'] at hsep
    refine ⟨fun heq => (hsep (.inl heq)).2, fun hunder heq => ?_⟩
    have hsame := (hsep (.inr (.inl ⟨hunder, heq⟩))).1
    exact hlonger spec'.1 (by rwa [hsame] at heq)
  · intro plain spec hspec spec' hspec' hshares
    rw [htrim spec hspec, htrim spec' hspec']
    rcases (hmeet spec hspec spec' hspec').mp hshares with heq | ⟨hunder, heq⟩ | ⟨hunder, heq⟩
    · exact ⟨heq, (plain spec hspec spec' hspec').1 heq⟩
    · exact absurd heq ((plain spec hspec spec' hspec').2 hunder)
    · exact absurd heq ((plain spec' hspec' spec hspec).2 hunder)

/-- A reservation binds its names faithfully exactly when no two of its entries share a path without
asking for the same; among tidy names, when none is another with the partition in front. -/
theorem reservation_faithful {env : Env} {newId : Text} {req : ReserveRequest} {a : Asset}
    {s s' : Session} (h : reserveAsset env newId req s = .ok a s') :
    (FaithfulReservation req newId a s.reg s'.reg ↔ req.Separate) ∧
      (Canonical req.partitionId →
        (∀ spec ∈ req.aliases, normalizeRelativeAlias spec.1 = .ok spec.1) →
        (FaithfulReservation req newId a s.reg s'.reg ↔ req.Plain)) := by
  obtain ⟨space, d, new, hbinds⟩ := reserveAsset_binds h
  have hiff : FaithfulReservation req newId a s.reg s'.reg ↔ req.Separate :=
    ⟨hbinds.separate_of_faithful, hbinds.faithful_of_separate⟩
  exact ⟨hiff, fun hpid hnames => hiff.trans (separate_iff_plain hpid hnames)⟩

/-- A reservation in the partition `m` of the bucket `cache`. -/
def reserveNames (aliases : AliasSpecs) : ReserveRequest :=
  { space := "cache".toList, partitionId := "m".toList, aliases, ownerServiceId := "svc".toList }

/-- The names `x` and `y/z`. -/
theorem reservation_two_names : ∃ a s',
    reserveAsset plainEnv "a1".toList (reserveNames [("x".toList, false), ("y/z".toList, true)])
      ⟨.initial 0, fun _ => 0⟩ = .ok a s' ∧
    FaithfulReservation (reserveNames [("x".toList, false), ("y/z".toList, true)]) "a1".toList a
      (.initial 0) s'.reg := by
  have hruns : returns (fun _ _ => true) (reserveAsset plainEnv "a1".toList
      (reserveNames [("x".toList, false), ("y/z".toList, true)]) ⟨.initial 0, fun _ => 0⟩) =
        true := by
    decide +kernel
  obtain ⟨a, s', h, -⟩ := exists_ok_of_returns hruns
  refine ⟨a, s', h, ((reservation_faithful h).2 rfl ?_).mpr ?_⟩
  · simp only [reserveNames, List.mem_cons, List.not_mem_nil, or_false, forall_eq_or_imp, forall_eq]
    exact ⟨rfl, rfl⟩
  · simp only [ReserveRequest.Plain, reserveNames, List.mem_cons, List.not_mem_nil, or_false,
      forall_eq_or_imp, forall_eq]
    decide

/-- The names `x` and `m/x` of the partition `m` share one binding, which is mutable for both. -/
theorem reservation_one_binding : ∃ a s',
    reserveAsset plainEnv "a1".toList (reserveNames [("x".toList, false), ("m/x".toList, true)])
      ⟨.initial 0, fun _ => 0⟩ = .ok a s' ∧
    (reserveNames [("x".toList, false), ("m/x".toList, true)]).names.card = 2 ∧
    s'.reg.aliases.keys = ["cache/m/x".toList] ∧ s'.reg.creations = 2 ∧ a.aliases.card = 1 ∧
    ¬FaithfulReservation (reserveNames [("x".toList, false), ("m/x".toList, true)]) "a1".toList a
      (.initial 0) s'.reg := by
  have hruns : returns (fun a s' => s'.reg.aliases.keys == ["cache/m/x".toList] &&
      s'.reg.creations == 2 && a.aliases.card == 1) (reserveAsset plainEnv "a1".toList
      (reserveNames [("x".toList, false), ("m/x".toList, true)]) ⟨.initial 0, fun _ => 0⟩) =
        true := by
    decide +kernel
  obtain ⟨a, s', h, hend⟩ := exists_ok_of_returns hruns
  have hend : (s'.reg.aliases.keys = ["cache/m/x".toList] ∧ s'.reg.creations = 2) ∧
      a.aliases.card = 1 := by
    simpa using hend
  have hnames : (reserveNames [("x".toList, false), ("m/x".toList, true)]).names.card = 2 := by
    decide +kernel
  refine ⟨a, s', h, hnames, hend.1.1, hend.1.2, hend.2, fun faithful => ?_⟩
  have hlisted := faithful.listed
  rw [hend.2, hnames] at hlisted
  cases hlisted

end AssetStore
