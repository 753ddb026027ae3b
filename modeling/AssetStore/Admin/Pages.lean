import AssetStore.Admin
import AssetStore.Lib.Keyset
import AssetStore.Registry.States

/-! Following the cursors of a listing returns every matching asset once, in the order of creation,
also while the registry changes between the requests. -/

namespace AssetStore

open Lib

/-! ### What a page shows -/

/-- The place of an asset in the listing. -/
def listKey (a : Asset) : Time ×ₗ Text := toLex (a.createdAt, a.assetId)

/-- The assets that a filter accepts, in the order of the listing. -/
def matching (f : AssetFilter) (r : Registry) : List Asset :=
  (r.assets.values.mergeSort listedBefore).filter fun a => f.accepts a

section Matching

variable {f : AssetFilter} {r : Registry}

theorem mem_matching {a : Asset} :
    a ∈ matching f r ↔ (∃ id, r.assets.get id = some a) ∧ f.accepts a := by
  simp [matching, Dict.mem_values]

theorem matching_increasing (filed : r.Filed) : Increasing listKey (matching f r) := by
  refine List.Pairwise.filter _ ?_
  have hsorted : (r.assets.values.mergeSort listedBefore).Pairwise fun a b => listKey a ≤
      listKey b := by
    have := @List.pairwise_mergeSort _ listedBefore
      (fun a b c hab hbc => by
        simp only [listedBefore, decide_eq_true_eq] at *
        exact hab.trans hbc)
      (fun a b => by
        simp only [listedBefore, Bool.or_eq_true, decide_eq_true_eq]
        exact le_total _ _) r.assets.values
    exact this.imp fun h => of_decide_eq_true h
  have hdistinct : (r.assets.values.mergeSort listedBefore).Pairwise fun a b => a.assetId ≠
      b.assetId := by
    have hnodup : (r.assets.values.map fun a => a.assetId).Nodup := Dict.values_nodup_map filed
    have hperm := (List.mergeSort_perm r.assets.values listedBefore).map fun a : Asset => a.assetId
    exact List.pairwise_map.mp (hperm.nodup_iff.mpr hnodup)
  exact (hsorted.and hdistinct).imp fun ⟨hle, hne⟩ =>
    lt_of_le_of_ne hle fun heq => hne (congrArg (fun k => (ofLex k).2) heq)

theorem isPast_eq (after : Option (Time × Text)) (a : Asset) :
    isPast after a = decide (Past listKey (after.map toLex) a) := by
  cases after with
  | none => simp [isPast, Past]
  | some p => simp [isPast, Past, listKey]

end Matching

/-! ### Requests -/

/-- A request and the page that it gets. -/
structure Visit where
  limit : Nat
  reg : Registry
  page : Page

/-- The page is the one of the filter and the cursor. -/
structure Visit.Shows (env : Env) (f : AssetFilter) (cursor : Option Text) (v : Visit) : Prop where
  limit : 1 ≤ v.limit ∧ v.limit ≤ 500
  page : ∃ clock s', listing env { toAssetFilter := f, limit := v.limit, cursor } ⟨v.reg, clock⟩ =
    .ok v.page s'

/-- Requests that follow the cursors until there is none. -/
inductive Follows (env : Env) (f : AssetFilter) : Option Text → List Visit → Prop
  | last {cursor : Option Text} {v : Visit} (shows : v.Shows env f cursor)
      (ends : v.page.nextCursor = none) : Follows env f cursor [v]
  | next {cursor : Option Text} {v : Visit} {c : Text} {rest : List Visit}
      (shows : v.Shows env f cursor) (more : v.page.nextCursor = some c)
      (follows : Follows env f (some c) rest) : Follows env f cursor (v :: rest)

/-- What the listing relies on for the cursor of an asset: JSON, base64 and the date format read
back what they wrote, and a cursor is short. -/
structure CursorCodec (env : Env) (f : AssetFilter) (a : Asset) : Prop where
  inverse : env.decodeCursor (env.encodeCursor (env.fingerprint f, a.createdAt, a.assetId)) =
    some (env.fingerprint f, a.createdAt, a.assetId)
  nonempty : env.encodeCursor (env.fingerprint f, a.createdAt, a.assetId) ≠ []
  fits : (env.encodeCursor (env.fingerprint f, a.createdAt, a.assetId)).length ≤ 2048

/-- The quota of the filter's partition can be read. -/
def AssetFilter.QuotaReadable (f : AssetFilter) : Prop :=
  ∀ space partitionId, given f.space = some space → given f.partitionId = some partitionId →
    ∃ norm, normalizePartitionId partitionId = .ok norm

/-- The position that a cursor stands for. -/
def Positions (env : Env) (f : AssetFilter) (cursor : Option Text) (after : Option (Time × Text)) :
    Prop :=
  (∀ limit, AssetQuery.after env { toAssetFilter := f, limit, cursor } = .ok after) ∧
    ∀ c ∈ cursor, c.length ≤ 2048

section Listing

variable {env : Env} {f f' : AssetFilter} {cursor : Option Text} {after : Option (Time × Text)}
  {limit : Nat} {r : Registry} {clock : Nat → Time} {page : Page} {s s' : Session}

theorem positions_none : Positions env f none none := ⟨fun _ => rfl, by simp⟩

theorem CursorCodec.positions {a : Asset} (h : CursorCodec env f a) :
    Positions env f (some (env.encodeCursor (env.fingerprint f, a.createdAt, a.assetId)))
      (some (a.createdAt, a.assetId)) := by
  refine ⟨fun limit => ?_, by simpa using h.fits⟩
  unfold AssetQuery.after
  cases hc : env.encodeCursor (env.fingerprint f, a.createdAt, a.assetId) with
  | nil => exact absurd hc h.nonempty
  | cons c rest =>
    have hdecode := h.inverse
    rw [hc] at hdecode
    simp [hdecode]

theorem AssetQuery.validate_eq (valid : validateFilters f = .ok f')
    (position : Positions env f' cursor after)
    (range : 1 ≤ limit ∧ limit ≤ 500) :
    AssetQuery.validate { toAssetFilter := f, limit, cursor } =
      .ok { toAssetFilter := f', limit, cursor } := by
  have hcursor : ¬∃ c ∈ cursor, 2048 < c.length := by
    rintro ⟨c, hc, hlong⟩
    exact absurd (position.2 c hc) (not_le.mpr hlong)
  simp only [AssetQuery.validate, except_bind_eq_ok, raiseIf_eq_ok, except_pure_eq_ok]
  exact ⟨(), not_not_intro range, (), hcursor, f', valid, rfl⟩

theorem queryAssets_eq (position : Positions env f cursor after) :
    queryAssets env { toAssetFilter := f, limit, cursor } s =
      .ok ((pastKey listKey (after.map toLex) (matching f s.reg)).take (limit + 1)) s := by
  have hrows : (s.reg.assets.values.mergeSort listedBefore).filter
      (fun a => decide (f.accepts a ∧ isPast after a = true)) =
        pastKey listKey (after.map toLex) (matching f s.reg) := by
    rw [pastKey, matching, List.filter_filter]
    refine List.filter_congr fun a _ => ?_
    rw [isPast_eq, Bool.decide_and, Bool.and_comm]
    simp
  unfold queryAssets
  rw [bind_of_ok (attempt_of_ok (position.1 limit)), bind_of_ok (rfl : tables s = .ok s.reg s)]
  exact congrArg (fun rows => EStateM.Result.ok (List.take (limit + 1) rows) s) hrows

/-- The page after a position: the first matching assets past it. -/
def pageAfter (env : Env) (f : AssetFilter) (r : Registry) (after : Option (Time × Text))
    (limit : Nat)
    (quota : Option PartitionQuota) : Page :=
  let rows := pastKey listKey (after.map toLex) (matching f r)
  { items := rows.take limit
    nextCursor :=
      if limit < rows.length then (rows.take limit).getLast?.map
        (AssetQuery.cursorFor env { toAssetFilter := f })
      else none
    quota }

theorem listing_eq (valid : validateFilters f = .ok f') (position : Positions env f' cursor after)
    (range : 1 ≤ limit ∧ limit ≤ 500) :
    listing env { toAssetFilter := f, limit, cursor } s =
      (listedQuota { toAssetFilter := f' } >>= fun quota =>
        pure (pageAfter env f' s.reg after limit quota)) s := by
  have hmore : limit < (List.take (limit + 1)
      (pastKey listKey (after.map toLex) (matching f' s.reg))).length ↔
        limit < (pastKey listKey (after.map toLex) (matching f' s.reg)).length := by
    rw [List.length_take]
    omega
  have htake : ∀ rows : List Asset, (rows.take (limit + 1)).take limit = rows.take limit := by
    intro rows
    rw [List.take_take, Nat.min_eq_left (Nat.le_succ limit)]
  unfold listing
  rw [AssetQuery.validate_eq valid position range]
  rw [bind_of_ok (attempt_of_ok rfl), bind_of_ok (queryAssets_eq position)]
  simp only [htake, hmore]
  rfl

theorem given_eq_some {value : Option Text} {text : Text} :
    given value = some text ↔ value = some text ∧ text ≠ [] := by
  unfold given
  split
  · constructor
    · intro h
      obtain rfl := Option.some.inj h
      simp
    · exact fun h => h.1
  · rename_i hempty
    constructor
    · intro h
      cases h
    · rintro ⟨rfl, hne⟩
      obtain ⟨c, rest, rfl⟩ := List.exists_cons_of_ne_nil hne
      exact (hempty c rest rfl).elim

/-- The space of a valid filter is a bucket. -/
theorem given_space_mem (valid : validateFilters f = .ok f') {space : Text}
    (h : given f'.space = some space) : space ∈ storageBuckets := by
  simp only [validateFilters, except_bind_eq_ok, except_pure_eq_ok] at valid
  obtain ⟨normSpace, hspace, _, -, _, -, _, -, _, -, rfl⟩ := valid
  simp only [normalizeFilter] at hspace
  cases hgiven : given f.space with
  | none =>
    rw [hgiven] at hspace
    obtain rfl := Except.ok.inj hspace
    cases hgiven.symm.trans h
  | some text =>
    simp only [hgiven, except_bind_eq_ok, except_pure_eq_ok] at hspace
    obtain ⟨norm, hnorm, rfl⟩ := hspace
    obtain rfl : norm = space := Option.some.inj (given_eq_some.mp h).1
    exact (normalizeBucket_eq_ok.mp hnorm).2

/-- The quota can be read exactly when the partition of the filter can be normalized again. -/
theorem listedQuota_ok_iff (valid : validateFilters f = .ok f') :
    (∃ quota, listedQuota { toAssetFilter := f' } s = .ok quota s) ↔ f'.QuotaReadable := by
  unfold listedQuota AssetFilter.QuotaReadable
  cases hspace : given f'.space with
  | none => simp
  | some space =>
    cases hpartition : given f'.partitionId with
    | none => simp
    | some partitionId =>
      have hnorm : normalizeSpace space = .ok space :=
        normalizeBucket_of_mem (given_space_mem valid hspace)
      simp only [partitionQuota, bind_eq_ok, attempt_eq_ok, tables_eq_ok, pure_eq_ok, hnorm]
      constructor
      · rintro ⟨_, _, _, ⟨_, _, -, norm, _, ⟨hpid, -⟩, -⟩, -⟩ _ _ - hid
        exact ⟨norm, Option.some.inj hid ▸ hpid⟩
      · intro h
        obtain ⟨norm, hpid⟩ := h space partitionId rfl rfl
        exact ⟨_, _, s, ⟨space, s, ⟨rfl, rfl⟩, norm, s, ⟨hpid, rfl⟩, _, s, ⟨rfl, rfl⟩, rfl, rfl⟩,
          rfl, rfl⟩

theorem listedQuota_same {q : AssetQuery} {quota : Option PartitionQuota}
    (h : listedQuota q s = .ok quota s') : s' = s := by
  unfold listedQuota at h
  cases hspace : given q.space with
  | none =>
    simp only [hspace] at h
    exact (pure_eq_ok.mp h).2.symm
  | some space =>
    cases hpartition : given q.partitionId with
    | none =>
      simp only [hspace, hpartition] at h
      exact (pure_eq_ok.mp h).2.symm
    | some partitionId =>
      simp only [hspace, hpartition, partitionQuota, bind_eq_ok, attempt_eq_ok, tables_eq_ok,
        pure_eq_ok] at h
      obtain ⟨_, _, ⟨_, _, ⟨-, rfl⟩, _, _, ⟨-, rfl⟩, _, _, ⟨-, rfl⟩, -, rfl⟩, -, rfl⟩ := h
      rfl

/-- What a visit shows. -/
theorem Visit.Shows.eq {v : Visit} (h : v.Shows env f cursor) (valid : validateFilters f = .ok f')
    (position : Positions env f' cursor after) :
    f'.QuotaReadable ∧ ∃ quota, v.page = pageAfter env f' v.reg after v.limit quota := by
  obtain ⟨clock, s', hlisting⟩ := h.page
  rw [listing_eq valid position h.limit, bind_eq_ok] at hlisting
  obtain ⟨quota, s1, hquota, hpage⟩ := hlisting
  obtain rfl := listedQuota_same hquota
  exact ⟨(listedQuota_ok_iff valid).mp ⟨quota, hquota⟩, quota, (pure_eq_ok.mp hpage).1.symm⟩

/-- A request with a readable quota gets its page. -/
theorem exists_shows (valid : validateFilters f = .ok f') (position : Positions env f' cursor after)
    (range : 1 ≤ limit ∧ limit ≤ 500) (readable : f'.QuotaReadable) (r : Registry) :
    ∃ quota, Visit.Shows env f cursor ⟨limit, r, pageAfter env f' r after limit quota⟩ := by
  obtain ⟨quota, hquota⟩ := (listedQuota_ok_iff (s := ⟨r, fun _ => 0⟩) valid).mpr readable
  refine ⟨quota, range, fun _ => 0, ⟨r, fun _ => 0⟩, ?_⟩
  rw [listing_eq valid position range, bind_of_ok hquota]
  rfl

end Listing

/-! ### Following the cursors -/

section Following

variable {env : Env} {f f' : AssetFilter} {cursor : Option Text} {after : Option (Time × Text)}
  {visits : List Visit} {r r' : Registry}

/-- The cursors that can be written for the assets of a registry can be read back. -/
def CursorsRead (env : Env) (f : AssetFilter) (r : Registry) : Prop :=
  ∀ id a, r.assets.get id = some a → CursorCodec env f a

/-- A page that is not the last one ends in a stored asset, from which the next one starts. -/
theorem pageAfter_next {limit : Nat} {quota : Option PartitionQuota} {c : Text}
    (codec : CursorsRead env f r) (more :
      (pageAfter env f r after limit quota).nextCursor = some c) :
    ∃ x, limit < (pastKey listKey (after.map toLex) (matching f r)).length ∧
      ((pastKey listKey (after.map toLex) (matching f r)).take limit).getLast? = some x ∧
      Positions env f (some c) (some (x.createdAt, x.assetId)) := by
  simp only [pageAfter] at more
  split at more
  · rename_i hmore
    obtain ⟨x, hx, rfl⟩ := Option.map_eq_some_iff.mp more
    refine ⟨x, hmore, hx, ?_⟩
    have hmem := mem_pastKey.mp (List.mem_of_mem_take (List.mem_of_getLast? hx))
    obtain ⟨⟨id, hid⟩, -⟩ := mem_matching.mp hmem.1
    exact (codec id x hid).positions
  · cases more

/-- The last page holds everything that is left. -/
theorem pageAfter_last {limit : Nat} {quota : Option PartitionQuota} (hlimit : 1 ≤ limit)
    (ends : (pageAfter env f r after limit quota).nextCursor = none) :
    (pageAfter env f r after limit quota).items =
      pastKey listKey (after.map toLex) (matching f r) := by
  simp only [pageAfter] at ends ⊢
  refine List.take_of_length_le ?_
  by_contra hshort
  rw [if_pos (not_le.mp hshort), Option.map_eq_none_iff, List.getLast?_eq_none_iff,
    List.take_eq_nil_iff] at ends
  rcases ends with hzero | hnil
  · omega
  · rw [hnil] at hshort
    simp at hshort

/-- Following the cursors cuts the matching assets into pages. -/
theorem Follows.paged (h : Follows env f cursor visits) (valid : validateFilters f = .ok f')
    (position : Positions env f' cursor after) (codec : ∀ v ∈ visits, CursorsRead env f' v.reg) :
    Paged listKey (after.map toLex) (visits.map fun v => matching f' v.reg)
      (visits.map fun v => v.page.items) := by
  induction h generalizing after with
  | @last cursor v shows ends =>
    obtain ⟨-, quota, hpage⟩ := shows.eq valid position
    rw [hpage] at ends
    simp only [List.map_cons, List.map_nil, hpage, pageAfter_last shows.limit.1 ends]
    exact .last
  | @next cursor v c rest shows more follows ih =>
    obtain ⟨-, quota, hpage⟩ := shows.eq valid position
    rw [hpage] at more
    obtain ⟨x, -, hx, hposition⟩ := pageAfter_next (codec v List.mem_cons_self) more
    simp only [List.map_cons, hpage]
    exact .next hx (ih hposition fun w hw => codec w (List.mem_cons_of_mem _ hw))

/-- Whatever the limits, the cursors lead to the last page of a registry that does not change. -/
theorem exists_follows (valid : validateFilters f = .ok f') (readable : f'.QuotaReadable)
    (filed : r.Filed) (codec : CursorsRead env f' r) {limits : Nat → Nat}
    (range : ∀ i, 1 ≤ limits i ∧ limits i ≤ 500) (position : Positions env f' cursor after) :
    ∃ visits, Follows env f cursor visits ∧ (∀ v ∈ visits, v.reg = r) ∧
      visits.map (fun v => v.limit) = (List.range visits.length).map limits := by
  -- each page but the last takes at least one asset from those that are left
  generalize hleft : (pastKey listKey (after.map toLex) (matching f' r)).length = n
  induction n using Nat.strong_induction_on generalizing after cursor limits with
  | _ n ih =>
    obtain ⟨quota, hshows⟩ := exists_shows valid position (range 0) readable r
    cases hnext : (pageAfter env f' r after (limits 0) quota).nextCursor with
    | none => exact ⟨[_], .last hshows hnext, by simp, by simp⟩
    | some c =>
      obtain ⟨x, hmore, hx, hposition⟩ := pageAfter_next codec hnext
      have hless :
          (pastKey listKey ((some (x.createdAt, x.assetId)).map toLex) (matching f' r)).length <
          n := by
        have hdrop := (matching_increasing (f := f') filed).pastKey_next hx
        have hlimit := (range 0).1
        rw [Option.map_some, show toLex (x.createdAt, x.assetId) = listKey x from rfl, hdrop,
          List.length_drop]
        omega
      obtain ⟨visits, hfollows, hreg, hlimits⟩ :=
        ih _ hless (fun i => range (i + 1)) hposition rfl
      refine ⟨_ :: visits, .next hshows hnext hfollows, ?_, ?_⟩
      · simpa using hreg
      · simp only [List.map_cons, hlimits, List.length_cons, List.range_succ_eq_map, List.map_map]
        rfl

end Following

/-! ### Each asset once -/

/-- What following the cursors of a filter returns. -/
structure ListsOnce (env : Env) (f f' : AssetFilter) (r : Registry) : Prop where
  /-- Whatever the limits, the cursors come to an end on a registry that does not change, -/
  ends : ∀ limits : Nat → Nat, (∀ i, 1 ≤ limits i ∧ limits i ≤ 500) → CursorsRead env f' r →
    ∃ visits, Follows env f none visits ∧ (∀ v ∈ visits, v.reg = r) ∧
      visits.map (fun v => v.limit) = (List.range visits.length).map limits
  /-- and then the pages are the matching assets. -/
  exact : ∀ visits, Follows env f none visits → (∀ v ∈ visits, v.reg = r) → CursorsRead env f' r →
    (visits.flatMap fun v => v.page.items) = matching f' r
  /-- With calls between the requests, no asset is returned twice, and the ones that are there
  before the first request and match at each request are returned. -/
  once : ∀ visits, Follows env f none visits →
    List.IsChain (Leads env) (r :: visits.map Visit.reg) →
    (∀ v ∈ visits, CursorsRead env f' v.reg) →
      (visits.flatMap fun v => v.page.items.map fun a => a.assetId).Nodup ∧
        ∀ id, (∃ a, r.assets.get id = some a) →
          (∀ v ∈ visits, ∃ a, v.reg.assets.get id = some a ∧ f'.accepts a) →
            id ∈ visits.flatMap fun v => v.page.items.map fun a => a.assetId

section Once

variable {env : Env} {f f' : AssetFilter} {grace : Int} {calls : List (Op × (Nat → Time))}
  {visits : List Visit} {r r' : Registry} {regs : List Registry}

/-- The registries between which calls are made. -/
theorem chain_runs (before : Runs env (Registry.initial grace) calls r)
    (chain : List.IsChain (Leads env) (r :: regs)) :
    ∀ r1 ∈ regs, Leads env r r1 ∧ ∃ calls1, Runs env (Registry.initial grace) calls1 r1 := by
  intro r1 hmem
  obtain ⟨more, hmore⟩ := (List.pairwise_cons.mp (List.isChain_iff_pairwise.mp chain)).1 r1 hmem
  exact ⟨⟨more, hmore⟩, _, before.append hmore⟩

/-- An asset keeps its place in the listing. -/
theorem chain_createdAt (before : Runs env (Registry.initial grace) calls r)
    (chain : List.IsChain (Leads env) (r :: regs)) {r1 r2 : Registry} (h1 : r1 ∈ regs)
    (h2 : r2 ∈ regs)
    {id : Text} {a1 a2 : Asset} (get1 : r1.assets.get id = some a1)
    (get2 : r2.assets.get id = some a2) :
    a1.createdAt = a2.createdAt := by
  have hlater := (List.pairwise_cons.mp (List.isChain_iff_pairwise.mp chain)).2
  have hforward : regs.Pairwise fun r1 r2 => ∀ a1 a2, r1.assets.get id = some a1 →
      r2.assets.get id = some a2 → a1.createdAt = a2.createdAt := by
    refine hlater.imp_of_mem fun {r1 r2} h1 _ hleads a1 a2 get1 get2 => ?_
    obtain ⟨-, calls1, hruns⟩ := chain_runs before chain r1 h1
    exact (hleads.evolves hruns get1 get2).createdAt.symm
  refine List.Pairwise.forall_of_forall_of_flip (fun _ _ a1 a2 get1 get2 => ?_) hforward
    (hforward.imp fun h a1 a2 get1 get2 => (h a2 a1 get2 get1).symm) h1 h2 a1 a2 get1 get2
  rw [Option.some.inj (get1.symm.trans get2)]

/-- The ids on the pages are distinct, and an asset that is always there and matches is on one. -/
theorem Follows.once (h : Follows env f none visits)
    (before : Runs env (Registry.initial grace) calls r)
    (valid : validateFilters f = .ok f')
    (chain : List.IsChain (Leads env) (r :: visits.map Visit.reg))
    (codec : ∀ v ∈ visits, CursorsRead env f' v.reg) :
    (visits.flatMap fun v => v.page.items.map fun a => a.assetId).Nodup ∧
      ∀ id, (∃ a, r.assets.get id = some a) →
        (∀ v ∈ visits, ∃ a, v.reg.assets.get id = some a ∧ f'.accepts a) →
          id ∈ visits.flatMap fun v => v.page.items.map fun a => a.assetId := by
  have hpaged := h.paged valid positions_none codec
  have hfiled : ∀ v ∈ visits, v.reg.Filed := by
    intro v hv
    obtain ⟨-, calls1, hruns⟩ := chain_runs before chain v.reg (List.mem_map_of_mem hv)
    exact hruns.filed
  have hsorted : ∀ l ∈ visits.map (fun v => matching f' v.reg), Increasing listKey l := by
    intro l hl
    obtain ⟨v, hv, rfl⟩ := List.mem_map.mp hl
    exact matching_increasing (hfiled v hv)
  -- the ids of the pages are those of their concatenation
  have hids : (visits.flatMap fun v => v.page.items.map fun a => a.assetId) =
      (visits.map fun v => v.page.items).flatten.map fun a => a.assetId := by
    rw [List.map_flatten, List.map_map]
    rfl
  have hstored : ∀ a ∈ (visits.map fun v => v.page.items).flatten,
      ∃ v ∈ visits, v.reg.assets.get a.assetId = some a := by
    intro a ha
    obtain ⟨l, hl, hmem⟩ := hpaged.exists_source ha
    obtain ⟨v, hv, rfl⟩ := List.mem_map.mp hl
    obtain ⟨⟨id, hget⟩, -⟩ := mem_matching.mp hmem
    exact ⟨v, hv, hfiled v hv id a hget ▸ hget⟩
  rw [hids]
  constructor
  · refine List.pairwise_map.mpr ((hpaged.increasing hsorted).1.imp_of_mem ?_)
    intro a b ha hb hlt heq
    obtain ⟨v, hv, hgeta⟩ := hstored a ha
    obtain ⟨w, hw, hgetb⟩ := hstored b hb
    have hcreated := chain_createdAt before chain (List.mem_map_of_mem hv) (List.mem_map_of_mem hw)
      hgeta (heq ▸ hgetb)
    exact absurd hlt (by simp [listKey, hcreated, heq])
  · rintro id ⟨a, hget⟩ hmatch
    have hheld : ∀ l ∈ visits.map (fun v => matching f' v.reg), ∃ b ∈ l, listKey b = listKey a := by
      intro l hl
      obtain ⟨v, hv, rfl⟩ := List.mem_map.mp hl
      obtain ⟨b, hgetb, haccepts⟩ := hmatch v hv
      obtain ⟨hleads, -⟩ := chain_runs before chain v.reg (List.mem_map_of_mem hv)
      have hev := hleads.evolves before hget hgetb
      refine ⟨b, mem_matching.mpr ⟨⟨id, hgetb⟩, haccepts⟩, ?_⟩
      rw [listKey, hev.createdAt, hev.assetId, listKey]
    obtain ⟨b, hb, hkey⟩ := hpaged.complete hsorted hheld (by simp)
    obtain rfl : a.assetId = id := before.filed id a hget
    exact List.mem_map.mpr ⟨b, hb, congrArg (fun k => (ofLex k).2) hkey⟩

theorem ListsOnce.readable (h : ListsOnce env f f' r) (valid : validateFilters f = .ok f')
    (codec : CursorsRead env f' r) : f'.QuotaReadable := by
  obtain ⟨visits, hfollows, -⟩ := h.ends (fun _ => 1) (fun _ => by decide) codec
  cases hfollows with
  | last shows _ => exact (shows.eq valid positions_none).1
  | next shows _ _ => exact (shows.eq valid positions_none).1

/-- Following the cursors lists each matching asset once, exactly when the quota of the filter's
partition can be read. -/
theorem lists_once_iff (before : Runs env (Registry.initial grace) calls r)
    (valid : validateFilters f = .ok f') (codec : CursorsRead env f' r) :
    ListsOnce env f f' r ↔ f'.QuotaReadable := by
  have hfiled : r.Filed := before.filed
  constructor
  · exact fun h => h.readable valid codec
  · intro readable
    refine ⟨fun limits range _ => exists_follows valid readable hfiled codec range positions_none,
      fun visits follows constant _ => ?_, fun visits follows chain codecs =>
        follows.once before valid chain codecs⟩
    have hpaged := follows.paged valid positions_none fun v hv => constant v hv ▸ codec
    have hconstant : ∀ source ∈ visits.map (fun v => matching f' v.reg), source =
        matching f' r := by
      intro source hsource
      obtain ⟨v, hv, rfl⟩ := List.mem_map.mp hsource
      rw [constant v hv]
    have hall := hpaged.flatten_of_constant (matching_increasing hfiled) hconstant
    rw [List.flatMap_def, hall]
    simp [pastKey, Past]

/-! Two assets of one instant, and the cursors that the listing writes for them. -/

def openFingerprint : Text :=
  "db093086c249248e994eb250c3dee7a6ff73b4c0e522ac6564e7ab7a63f235ca".toList

def cursorStem : Text :=
  "WyJkYjA5MzA4NmMyNDkyNDhlOTk0ZWIyNTBjM2RlZTdhNmZmNzNiNGMwZTUyMmFjNjU2NGU3".toList ++
    "YWI3YTYzZjIzNWNhIiwgIjE5NzAtMDEtMDFUMDA6MDA6MDArMDA6MDAiLCAiYT".toList

def twinCursor : Bool → Text
  | false => cursorStem ++ "EiXQ==".toList
  | true => cursorStem ++ "IiXQ==".toList

def cursorEnv : Env :=
  { plainEnv with
    fingerprint := fun f => if f = {} then openFingerprint else []
    encodeCursor := fun position =>
      if position = (openFingerprint, 0, "a1".toList) then twinCursor false
      else if position = (openFingerprint, 0, "a2".toList) then twinCursor true
      else []
    decodeCursor := fun c =>
      if c = twinCursor false then some (openFingerprint, 0, "a1".toList)
      else if c = twinCursor true then some (openFingerprint, 0, "a2".toList)
      else none }

def twinCalls : List (Op × (Nat → Time)) :=
  [(reserveCall, fun _ => 0),
    (.reserveAsset "a2".toList
      { space := "cache".toList, partitionId := "m".toList, aliases := [("y".toList, false)]
        ownerServiceId := "svc".toList, reservedBytes := some 3 }, fun _ => 0)]

theorem lists_once_twins : ∃ r, Runs cursorEnv (.initial 0) twinCalls r ∧
    r.assets.values.map (fun a => (a.createdAt, a.assetId)) = [(0, "a1".toList), (0, "a2".toList)] ∧
    ListsOnce cursorEnv {} {} r := by
  have hplay : (playCalls cursorEnv (.initial 0) twinCalls).any (fun r =>
      r.assets.values.map (fun a => (a.createdAt, a.assetId)) ==
        [((0 : Time), "a1".toList), (0, "a2".toList)]) = true := by decide +kernel
  obtain ⟨r, hruns, hr⟩ := exists_runs_of_play hplay
  have hvalues := beq_iff_eq.mp hr
  have hdistinct : twinCursor true ≠ twinCursor false := by simp [twinCursor]
  have hstem : cursorStem.length ≤ 2000 := by decide +kernel
  have hlength : ∀ b, twinCursor b ≠ [] ∧ (twinCursor b).length ≤ 2048 := by
    intro b
    cases b <;> simp [twinCursor] <;> omega
  have hcodec : CursorsRead cursorEnv {} r := by
    intro id a hget
    have hmem := List.mem_map_of_mem (f := fun a : Asset => (a.createdAt, a.assetId))
      (Dict.mem_values.mpr ⟨id, hget⟩)
    rw [hvalues] at hmem
    simp only [List.mem_cons, List.not_mem_nil, or_false, Prod.mk.injEq] at hmem
    rcases hmem with ⟨hcreated, hid⟩ | ⟨hcreated, hid⟩
    · constructor <;> simp [hcreated, hid, cursorEnv, hlength]
    · constructor <;> simp [hcreated, hid, cursorEnv, hlength, hdistinct]
  refine ⟨r, hruns, hvalues, (lists_once_iff hruns rfl hcodec).mpr ?_⟩
  intro space partitionId hspace
  cases hspace

/-- A filter that is accepted and names a partition that the quota does not accept. -/
def blankPartition : AssetFilter :=
  { space := some "cache".toList, partitionId := some "/ /".toList }

theorem listing_breaks_off : ∃ f' e s', validateFilters blankPartition = .ok f' ∧
    listing plainEnv { toAssetFilter := blankPartition } ⟨.initial 0, fun _ => 0⟩ = .error e s' ∧
    e.message = "alias path must be non-empty" ∧
    ¬ListsOnce plainEnv blankPartition f' (.initial 0) := by
  have hvalid : validateFilters blankPartition =
      .ok { space := some "cache".toList, partitionId := some " ".toList } := by decide +kernel
  have hraises : raises (fun e _ => e.message == "alias path must be non-empty")
      (listing plainEnv { toAssetFilter := blankPartition } ⟨.initial 0, fun _ => 0⟩) = true := by
    decide +kernel
  obtain ⟨e, s', herror, hmessage⟩ := exists_error_of_raises hraises
  refine ⟨_, e, s', hvalid, herror, by simpa using hmessage, fun h => ?_⟩
  have hcodec :
    CursorsRead plainEnv { space := some "cache".toList, partitionId := some " ".toList }
      (.initial 0) := fun _ _ hget => by cases hget
  obtain ⟨norm, hnorm⟩ := h.readable hvalid hcodec _ _ rfl rfl
  have hblank : normalizePartitionId " ".toList =
      .error { cls := .validation, message := "alias path must be non-empty" } := by decide +kernel
  cases hblank.symm.trans hnorm

end Once

end AssetStore
