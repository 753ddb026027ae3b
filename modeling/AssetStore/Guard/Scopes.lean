import AssetStore.Api
import AssetStore.Guard.Confinement

/-! What a minted scope grants. The mint endpoint and the match strip slashes from the scope; the
constructor strips whitespace first. The scope means what the constructor read exactly when the two
readings agree, or when no alias lies under either. -/

namespace AssetStore

open Lib

/-! ### Aliases under a path -/

/-- The guard takes the child `x` of the path as it is written. -/
def Addressable (path : Text) : Prop :=
  ∃ parsed, parseAlias (path ++ "/x".toList) = .ok parsed ∧ parsed.qualified = path ++ "/x".toList

section Aliases

variable {aliasName space rest partition name path root : Text} {parsed : ParsedAlias}

theorem parseAlias_iff :
    parseAlias aliasName = .ok parsed ↔ ∃ space rest partition name,
      trimPath aliasName = space ++ '/' :: rest ∧ '/' ∉ space ∧
      normalizeBucket space = .ok parsed.space ∧
      normalizeRelativeAlias rest = .ok parsed.relative ∧
      parsed.relative = partition ++ '/' :: name ∧ '/' ∉ partition ∧
      normalizeRelativeAlias partition = .ok parsed.partitionId ∧
      normalizeRelativeAlias name = .ok parsed.aliasInPartition ∧
      qualifiedAlias parsed.space parsed.relative = .ok parsed.qualified := by
  have hempty : ∀ out, normalizeRelativeAlias [] ≠ .ok out := by
    intro out h
    obtain ⟨rfl, hne, -⟩ := normalizeRelativeAlias_eq_ok.mp h
    exact hne rfl
  simp only [parseAlias, except_bind_eq_ok, raiseIf_eq_ok, except_pure_eq_ok, not_or]
  constructor
  · rintro ⟨_, ⟨hsep, -⟩, space, hspace, relative, hrel, _, ⟨hpsep, -⟩, pid, hpid, name,
      hname, qualified, hq, rfl⟩
    rcases hcut : partitionSlash (stripSlash (stripSpace aliasName)) with ⟨first, sep, tail⟩
    rcases hcut' : partitionSlash relative with ⟨partition, psep, inPartition⟩
    rw [hcut] at hsep hspace hrel
    rw [hcut'] at hpsep hpid hname
    obtain rfl : sep = true := by simpa using hsep
    obtain rfl : psep = true := by simpa using hpsep
    obtain ⟨heq, hno⟩ := partitionSlash_true hcut
    obtain ⟨heq', hno'⟩ := partitionSlash_true hcut'
    exact ⟨first, tail, partition, inPartition, heq, hno, hspace, hrel, heq', hno', hpid, hname, hq⟩
  · rintro ⟨space, rest, partition, name, heq, hno, hspace, hrel, heq', hno', hpid, hname, hq⟩
    have hcut : partitionSlash (stripSlash (stripSpace aliasName)) = (space, true, rest) := by
      rw [show stripSlash (stripSpace aliasName) = space ++ '/' :: rest from heq]
      exact partitionSlash_append hno
    have hcut' : partitionSlash parsed.relative = (partition, true, name) := by
      rw [heq', partitionSlash_append hno']
    have hrest : rest ≠ [] := fun hnil => hempty _ (hnil ▸ hrel)
    have hin : name ≠ [] := fun hnil => hempty _ (hnil ▸ hname)
    rw [hcut]
    refine ⟨(), ⟨by simp, hrest⟩, parsed.space, hspace, parsed.relative, hrel, ?_⟩
    rw [hcut']
    exact ⟨(), ⟨by simp, hin⟩, parsed.partitionId, hpid, parsed.aliasInPartition, hname,
      parsed.qualified, hq, rfl⟩

/-- Nothing is trimmed at the back of a child `x`. -/
theorem trail_child (path : Text) :
    trail isSpace isSlash (path ++ "/x".toList) = path ++ "/x".toList := by
  have hx : trail isSpace isSlash "/x".toList = "/x".toList := by decide
  rw [trail_append (by rw [hx]; simp), hx]

/-- Nothing is trimmed in front of a bucket. -/
theorem lead_bucket (h : space ∈ storageBuckets) (path : Text) :
    lead isSpace isSlash (space ++ path) = space ++ path := by
  have hself : lead isSpace isSlash space = space := lead_of_trim _ _ (bucket_trimPath h)
  have hne : space ≠ [] := by
    rintro rfl
    exact absurd h (by decide)
  rw [lead_append (by rwa [hself]), hself]

theorem isUnder_append (root : Text) (path : Text) (space : Text) :
    isUnder (space ++ '/' :: root) (space ++ '/' :: path) = isUnder root path := by
  rw [Bool.eq_iff_iff, isUnder_iff, isUnder_iff]
  simp only [List.append_assoc, List.cons_append, List.append_cancel_left_eq, List.cons.injEq,
    true_and]

theorem isUnder_lead (hne : lead isSpace isSlash root ≠ []) (h : isUnder root path = true) :
    isUnder (lead isSpace isSlash root) (lead isSpace isSlash path) = true := by
  rw [isUnder_iff] at h ⊢
  rcases h with rfl | ⟨rest, rfl⟩
  · exact .inl rfl
  · exact .inr ⟨rest, lead_append hne⟩

theorem x_segments : ∀ part ∈ "x".toList.splitOn '/', ¬BadSegment part := by
  have hsplit : "x".toList.splitOn '/' = ["x".toList] := by decide
  rw [hsplit]
  simp [BadSegment]

/-- The child `x` of a path adds one good segment. -/
theorem segments_child (h : ∀ part ∈ path.splitOn '/', ¬BadSegment part) :
    ∀ part ∈ (path ++ "/x".toList).splitOn '/', ¬BadSegment part := by
  intro part hpart
  rw [show "/x".toList = '/' :: "x".toList from rfl, List.splitOn_append_cons_self,
    List.mem_append] at hpart
  rcases hpart with hpart | hpart
  · exact h part hpart
  · exact x_segments part hpart

theorem segments_of_under (h : ∀ part ∈ path.splitOn '/', ¬BadSegment part)
    (hunder : isUnder root path = true) : ∀ part ∈ root.splitOn '/', ¬BadSegment part :=
  fun part hpart => h part ((isUnder_segments.mp hunder).subset hpart)

/-- A path above one that is normalized has a normalized child `x`. -/
theorem normalizes_child {root path : Text}
    (hlead : ∀ part ∈ (lead isSpace isSlash path).splitOn '/', ¬BadSegment part)
    (h : isUnder root path = true) :
    ∃ out, normalizeRelativeAlias (root ++ "/x".toList) = .ok out := by
  have htrim : trimPath (root ++ "/x".toList) = lead isSpace isSlash (root ++ "/x".toList) := by
    rw [trimPath, trim_eq_lead_trail, trail_child]
  by_cases hne : lead isSpace isSlash root = []
  · have hx : lead isSpace isSlash (root ++ "/x".toList) = "x".toList := by
      unfold lead at hne ⊢
      rw [List.dropWhile_append]
      split
      · decide
      · rw [List.dropWhile_append, if_pos (by simp [hne])]
        decide
    exact ⟨"x".toList, normalizeRelativeAlias_eq_ok.mpr ⟨htrim.trans hx, by decide, x_segments⟩⟩
  · rw [lead_append hne] at htrim
    refine ⟨_, normalizeRelativeAlias_eq_ok.mpr ⟨htrim, by simp, ?_⟩⟩
    exact segments_child (segments_of_under hlead (isUnder_lead hne h))

/-- Below a partition, the name of a child `x` is that of the partition or of a path in it. -/
theorem under_partition (hno : '/' ∉ partition)
    (h : isUnder path (partition ++ '/' :: name) = true) :
    ∃ inner, path ++ "/x".toList = partition ++ '/' :: inner ∧
      (inner = "x".toList ∨ ∃ root, inner = root ++ "/x".toList ∧ isUnder root name = true) := by
  rcases hcut : partitionSlash path with ⟨first, sep, tail⟩
  cases sep with
  | false =>
    obtain ⟨rfl, hfirst⟩ := partitionSlash_false hcut
    rcases isUnder_iff.mp h with heq | ⟨rest, heq⟩
    · exact absurd (heq ▸ List.mem_append_right _ List.mem_cons_self) hfirst
    · obtain ⟨rfl, -⟩ := append_slash_inj hno hfirst heq
      exact ⟨"x".toList, rfl, .inl rfl⟩
  | true =>
    obtain ⟨rfl, hfirst⟩ := partitionSlash_true hcut
    have hsame : partition = first := by
      rcases isUnder_iff.mp h with heq | ⟨rest, heq⟩
      · exact (append_slash_inj hno hfirst heq).1
      · exact (append_slash_inj hno hfirst (by simpa using heq)).1
    subst hsame
    rw [isUnder_append] at h
    exact ⟨tail ++ "/x".toList, by simp, .inr ⟨tail, rfl, h⟩⟩

/-- An alias that lies under a path of a bucket makes the path addressable. -/
theorem addressable_of_under (hparse : parseAlias aliasName = .ok parsed)
    (hunder : isUnder (parsed.space ++ '/' :: path) parsed.qualified = true) :
    Addressable (parsed.space ++ '/' :: path) := by
  obtain ⟨hmem, hq, p, n, hcut, -, -⟩ := parseAlias_eq_ok hparse
  obtain ⟨-, -, partition, name, -, -, -, -, heq, hno, hpartition, hname, hqualified⟩ :=
    parseAlias_iff.mp hparse
  obtain ⟨rfl, rfl⟩ := append_slash_inj hcut.noSlash hno (hcut.eq.symm.trans heq)
  obtain ⟨b, full, -, hfull, -⟩ := qualifiedAlias_eq_ok.mp hqualified
  obtain ⟨rfl, -, hsegments⟩ := normalizeRelativeAlias_eq_ok.mp hfull
  obtain ⟨htrimName, -, hnameSegments⟩ := normalizeRelativeAlias_eq_ok.mp hname
  obtain ⟨htrimPart, hpartNe, hpartSegments⟩ := normalizeRelativeAlias_eq_ok.mp hpartition
  rw [hcut.trimPath_eq] at hq hsegments
  rw [hq, isUnder_append] at hunder
  have hfront : lead isSpace isSlash (p.dropWhile isSpace) = p.dropWhile isSpace := by
    rw [lead_noSlash hcut.front_noSlash, List.dropWhile_idempotent]
  have hpath : trimPath (path ++ "/x".toList) = path ++ "/x".toList := by
    refine trim_of_ends _ _ ?_ (trail_child path)
    obtain ⟨inner, heq, -⟩ := under_partition hcut.front_noSlash hunder
    rw [heq, lead_append, hfront]
    rw [hfront]
    exact hcut.front_ne_nil
  have hchild : normalizeRelativeAlias (path ++ "/x".toList) = .ok (path ++ "/x".toList) :=
    normalizeRelativeAlias_eq_ok.mpr
      ⟨hpath, by simp, segments_child (segments_of_under hsegments hunder)⟩
  obtain ⟨inner, hsplit, hinner⟩ := under_partition hcut.front_noSlash hunder
  obtain ⟨out, hout⟩ : ∃ out, normalizeRelativeAlias inner = .ok out := by
    rcases hinner with rfl | ⟨root, rfl, hroot⟩
    · exact ⟨"x".toList, normalizeRelativeAlias_eq_ok.mpr ⟨by decide, by decide, x_segments⟩⟩
    · refine normalizes_child ?_ hroot
      rw [← trim_eq_lead_trail]
      rw [← htrimName] at hnameSegments
      exact hnameSegments
  have hid : normalizeRelativeAlias (p.dropWhile isSpace) = .ok parsed.partitionId := by
    refine normalizeRelativeAlias_eq_ok.mpr ⟨?_, hpartNe, hpartSegments⟩
    rw [trimPath_noSlash hcut.front_noSlash, ← htrimPart, trimPath_noSlash hno, stripSpace, strip,
      List.dropWhile_idempotent]
    rfl
  have htrim : trimPath (parsed.space ++ '/' :: path ++ "/x".toList) =
      parsed.space ++ '/' :: (path ++ "/x".toList) := by
    have hfront := lead_bucket hmem ('/' :: (path ++ "/x".toList))
    have hback := trail_child (parsed.space ++ '/' :: path)
    rw [List.append_assoc, List.cons_append] at hback ⊢
    exact trim_of_ends _ _ hfront hback
  refine ⟨⟨parsed.space, path ++ "/x".toList, parsed.partitionId, out,
    parsed.space ++ '/' :: path ++ "/x".toList⟩, parseAlias_iff.mpr ?_, rfl⟩
  refine ⟨parsed.space, path ++ "/x".toList, p.dropWhile isSpace, inner, htrim,
    bucket_no_slash hmem,
    normalizeBucket_of_mem hmem, hchild, hsplit, hcut.front_noSlash, hid, hout, ?_⟩
  exact qualifiedAlias_eq_ok.mpr ⟨_, _, normalizeBucket_of_mem hmem, hchild, by simp⟩

/-- A path with a slash, above an accepted alias, starts with the bucket of the alias. -/
theorem starts_with_space (hparse : parseAlias aliasName = .ok parsed) (hslash : '/' ∈ root)
    (hunder : isUnder root parsed.qualified = true) :
    ∃ path, root = parsed.space ++ '/' :: path := by
  obtain ⟨hmem, hq, -⟩ := parseAlias_eq_ok hparse
  have hno := bucket_no_slash hmem
  rw [hq] at hunder
  rcases hcut : partitionSlash root with ⟨first, sep, tail⟩
  cases sep with
  | false =>
    obtain ⟨rfl, hfirst⟩ := partitionSlash_false hcut
    exact absurd hslash hfirst
  | true =>
    obtain ⟨rfl, hfirst⟩ := partitionSlash_true hcut
    rcases isUnder_iff.mp hunder with heq | ⟨rest, heq⟩
    · obtain ⟨hsame, -⟩ := append_slash_inj hno hfirst heq
      exact ⟨tail, by rw [hsame]⟩
    · rw [List.append_assoc, List.cons_append] at heq
      obtain ⟨hsame, -⟩ := append_slash_inj hno hfirst heq
      exact ⟨tail, by rw [hsame]⟩

end Aliases

/-! ### The readings of a scope -/

section Readings

variable {scope bucket : Text}

/-- A bucket does not start with whitespace. -/
theorem bucket_head {c : Char} {path rest : Text} (h : bucket ∈ storageBuckets)
    (heq : bucket ++ path = c :: rest) : isSpace c = false := by
  have hall : ∀ b ∈ storageBuckets, ∃ c tail, b = c :: tail ∧ isSpace c = false := by
    simp [storageBuckets]
    decide
  obtain ⟨c', tail, rfl, hspace⟩ := hall bucket h
  rw [List.cons_append, List.cons.injEq] at heq
  rw [← heq.1]
  exact hspace

/-- A scope that the constructor accepts has a bucket and a path. -/
theorem slash_of_validateScope (h : validateScope scope = .ok ()) : '/' ∈ trimPath scope := by
  by_contra hno
  simp only [validateScope, except_bind_eq_ok, raiseIf_eq_ok] at h
  obtain ⟨-, hlen, -⟩ := h
  apply hlen
  rw [show stripSlash (stripSpace scope) = trimPath scope from rfl, List.splitOn_eq_singleton hno]
  simp

/-- What the match reads is what the constructor reads, with more around it. -/
theorem stripSlash_eq_around (hne : trimPath scope ≠ []) :
    ∃ w s s' w', stripSlash scope = w ++ s ++ trimPath scope ++ s' ++ w' ∧
      (∀ c ∈ w, isSpace c = true) ∧ (∀ c ∈ s, isSlash c = true) ∧ (w = [] → s = []) ∧
      (∀ c ∈ w', isSpace c = true) ∧ (w' = [] → s' = []) :=
  strip_eq_trim isSlash_of_isSpace hne

/-- A reading that the match alone has, and that differs, misses the child `x`. -/
theorem match_misses_child {path : Text} (hdiff : stripSlash scope ≠ trimPath scope)
    (hmem : bucket ∈ storageBuckets) (hpath : trimPath scope = bucket ++ '/' :: path) :
    isUnder (stripSlash scope) (trimPath scope ++ "/x".toList) = false := by
  have hne : trimPath scope ≠ [] := by simp [hpath]
  obtain ⟨w, s, s', w', heq, hw, -, hs, hw', hs'⟩ := stripSlash_eq_around hne
  rw [Bool.eq_false_iff]
  intro hunder
  obtain ⟨more, hmore⟩ : ∃ more, trimPath scope ++ "/x".toList = stripSlash scope ++ more := by
    rcases isUnder_iff.mp hunder with h | ⟨rest, h⟩
    · exact ⟨[], by rw [h, List.append_nil]⟩
    · exact ⟨_, h⟩
  cases hcase : w with
  | cons c tail =>
    rw [heq, hcase, hpath, List.append_assoc] at hmore
    have := bucket_head hmem hmore
    rw [hw c (by simp [hcase])] at this
    cases this
  | nil =>
    rw [hcase, hs hcase, List.nil_append, List.nil_append] at heq
    cases hcase' : w' with
    | nil =>
      apply hdiff
      rw [heq, hcase', hs' hcase', List.append_nil, List.append_nil]
    | cons c tail =>
      rw [heq, hcase', List.append_assoc, List.append_assoc, List.append_cancel_left_eq] at hmore
      have hin : c ∈ "/x".toList := by
        rw [hmore]
        simp
      have hnot : ∀ c ∈ "/x".toList, isSpace c = false := by decide
      have hspace := hw' c (by simp [hcase'])
      rw [hnot c hin] at hspace
      cases hspace

/-- The bucket of the mint check is the one in front of what the constructor read. -/
theorem mint_bucket {space path : Text} (hmem : space ∈ storageBuckets)
    (hpath : trimPath scope = space ++ '/' :: path)
    (h : normalizeSpace (partitionSlash (stripSlash scope)).1 = .ok bucket) : space = bucket := by
  have hne : trimPath scope ≠ [] := by simp [hpath]
  obtain ⟨w, s, s', w', heq, hw, hs, -, -, -⟩ := stripSlash_eq_around hne
  have hnow : '/' ∉ w := fun hmem => absurd (hw _ hmem) (by decide)
  obtain ⟨htrim, hbucket⟩ := normalizeBucket_eq_ok.mp h
  rw [heq, hpath] at htrim
  cases hcase : s with
  | nil =>
    have hno : '/' ∉ w ++ space := by simp [hnow, bucket_no_slash hmem]
    rw [hcase, show w ++ [] ++ (space ++ '/' :: path) ++ s' ++ w' =
      (w ++ space) ++ '/' :: (path ++ s' ++ w') by simp, partitionSlash_append hno,
      trimPath_noSlash hno, stripSpace, strip, List.dropWhile_append_of_pos hw] at htrim
    rw [← htrim]
    nth_rewrite 1 [← bucket_trimPath hmem]
    exact trimPath_noSlash (bucket_no_slash hmem)
  | cons c tail =>
    obtain rfl : c = '/' := by simpa [isSlash] using hs c (by simp [hcase])
    rw [hcase, show w ++ '/' :: tail ++ (space ++ '/' :: path) ++ s' ++ w' =
      w ++ '/' :: (tail ++ (space ++ '/' :: path) ++ s' ++ w') by simp, partitionSlash_append hnow,
      trimPath_noSlash hnow, stripSpace, strip, List.dropWhile_eq_nil_iff.mpr hw] at htrim
    rw [← htrim] at hbucket
    exact absurd hbucket (by decide)

end Readings

/-! ### The meaning of a grant -/

/-- Before its expiry, the grant covers its operation on the aliases of the bucket whose segments
begin with those of the scope, as the constructor reads it. -/
def Capability.Means (cap : Capability) (bucket : Text) : Prop :=
  ∀ aliasName parsed, parseAlias aliasName = .ok parsed → ∀ operation now, now < cap.expiresAt →
    (cap.allows operation parsed.qualified now = true ↔
      operation = cap.operation ∧ parsed.space = bucket ∧
        (trimPath cap.scopePrefix).splitOn '/' <+: parsed.qualified.splitOn '/')

theorem Capability.allows_iff {cap : Capability} {aliasName : Text} {parsed : ParsedAlias}
    {operation : Operation} {now : Time} (hparse : parseAlias aliasName = .ok parsed)
    (hnow : now < cap.expiresAt) :
    cap.allows operation parsed.qualified now = true ↔
      operation = cap.operation ∧ isUnder (stripSlash cap.scopePrefix) parsed.qualified = true := by
  obtain ⟨hmem, hq, p, n, hcut, -⟩ := parseAlias_eq_ok hparse
  simp only [Capability.allows, isSamePathOrChild, Bool.and_eq_true, beq_iff_eq, decide_eq_true_eq,
    hnow, and_true]
  rw [hq, stripSlash_qualified hmem hcut.trimPath_ne_nil]

theorem Capability.means_iff {cap : Capability} {bucket : Text}
    (hbucket : normalizeSpace (partitionSlash (stripSlash cap.scopePrefix)).1 = .ok bucket) :
    cap.Means bucket ↔ stripSlash cap.scopePrefix = trimPath cap.scopePrefix ∨
      (¬Addressable (trimPath cap.scopePrefix) ∧ ¬Addressable (stripSlash cap.scopePrefix)) := by
  have hslash := slash_of_validateScope cap.scope_valid
  have hslash' : '/' ∈ stripSlash cap.scopePrefix := by
    obtain ⟨w, s, s', w', heq, -⟩ := stripSlash_eq_around (List.ne_nil_of_mem hslash)
    rw [heq]
    simp [hslash]
  have above : ∀ {root aliasName parsed}, '/' ∈ root → parseAlias aliasName = .ok parsed →
      isUnder root parsed.qualified = true → Addressable root := by
    intro root aliasName parsed hroot hparse hunder
    obtain ⟨path, rfl⟩ := starts_with_space hparse hroot hunder
    exact addressable_of_under hparse hunder
  unfold Capability.Means
  constructor
  · intro hmeans
    by_cases hsame : stripSlash cap.scopePrefix = trimPath cap.scopePrefix
    · exact .inl hsame
    · have hlast : cap.expiresAt - 1 < cap.expiresAt := sub_one_lt _
      have hfirst : ¬Addressable (trimPath cap.scopePrefix) := by
        rintro ⟨parsed, hparse, hq⟩
        have hunder : isUnder (trimPath cap.scopePrefix) parsed.qualified = true :=
          isUnder_iff.mpr (.inr ⟨"x".toList, hq⟩)
        obtain ⟨path, hpath⟩ := starts_with_space hparse hslash hunder
        obtain ⟨hmem, -⟩ := parseAlias_eq_ok hparse
        have hallow := (hmeans _ _ hparse cap.operation _ hlast).mpr
          ⟨rfl, mint_bucket hmem hpath hbucket, isUnder_segments.mp hunder⟩
        have hmatch := ((Capability.allows_iff hparse hlast).mp hallow).2
        rw [hq, match_misses_child hsame hmem hpath] at hmatch
        cases hmatch
      refine .inr ⟨hfirst, ?_⟩
      rintro ⟨parsed, hparse, hq⟩
      have hunder : isUnder (stripSlash cap.scopePrefix) parsed.qualified = true :=
        isUnder_iff.mpr (.inr ⟨"x".toList, hq⟩)
      have hallow : cap.allows cap.operation parsed.qualified (cap.expiresAt - 1) = true :=
        (Capability.allows_iff hparse hlast).mpr ⟨rfl, hunder⟩
      obtain ⟨-, -, hprefix⟩ := (hmeans _ _ hparse _ _ hlast).mp hallow
      exact hfirst (above hslash hparse (isUnder_segments.mpr hprefix))
  · intro hcase aliasName parsed hparse operation now hnow
    rw [Capability.allows_iff hparse hnow, ← isUnder_segments]
    rcases hcase with hsame | ⟨hfirst, hsecond⟩
    · rw [hsame]
      refine and_congr_right fun _ => ⟨fun hunder => ⟨?_, hunder⟩, And.right⟩
      obtain ⟨path, hpath⟩ := starts_with_space hparse hslash hunder
      exact mint_bucket (parseAlias_eq_ok hparse).1 hpath hbucket
    · constructor
      · intro h
        exact absurd (above hslash' hparse h.2) hsecond
      · intro h
        exact absurd (above hslash hparse h.2.2) hfirst

/-! ### Mints -/

section Mints

variable {cfg : ApiConfig} {env : Env} {capId caller scope bucket id : Text} {operation : Operation}
  {ttl : Int} {single : Bool} {app app' : App} {cap : Capability}

theorem Capability.create_eq_ok {expiresAt : Time}
    (h : Capability.create capId operation scope expiresAt caller single = .ok cap) :
    cap.capabilityId = capId ∧ cap.operation = operation ∧ cap.scopePrefix = scope := by
  unfold Capability.create at h
  split at h
  · cases h
  · cases h
    exact ⟨rfl, rfl, rfl⟩

theorem requireBucketAllowed_eq_ok {u : Unit}
    (h : requireBucketAllowed env caller bucket operation scope ttl app = .ok u app') :
    assertServiceBucketAllowed caller bucket operation = .ok () := by
  cases hcheck : assertServiceBucketAllowed caller bucket operation with
  | ok => rfl
  | error e =>
    simp only [requireBucketAllowed, hcheck, bind_eq_ok, attempt_eq_ok] at h
    obtain ⟨_, _, _, h, _⟩ := h
    cases h

theorem issueCapability_eq_ok {onGrant : AppM Unit} {u : Unit}
    (h : issueCapability cfg cap onGrant app = .ok u app') :
    app'.capabilities.get cap.capabilityId = some cap := by
  simp only [issueCapability, bind_eq_ok] at h
  obtain ⟨_, _, _, _, _, _, _, _, _, _, _, _, _, _, _, _, app1, _, h⟩ := h
  cases h
  show (app1.capabilities.set cap.capabilityId cap).get cap.capabilityId = some cap
  rw [Dict.get_set_self]

/-- A mint checks the bucket of the scope against the allowlist, and publishes the grant. -/
theorem mintCapability_eq_ok
    (h : mintCapability cfg env capId caller operation scope ttl single app = .ok id app') :
    ∃ bucket cap, normalizeSpace (partitionSlash (stripSlash scope)).1 = .ok bucket ∧
      assertServiceBucketAllowed caller bucket operation = .ok () ∧
      app'.capabilities.get id = some cap ∧ cap.scopePrefix = scope ∧
        cap.operation = operation := by
  simp only [mintCapability, bind_eq_ok, attempt_eq_ok, pure_eq_ok] at h
  obtain ⟨_, _, _, bucket, _, ⟨hbucket, rfl⟩, _, _, hallowed, now, _, _, cap, _,
    ⟨hcreate, rfl⟩, _, _, _,
    _, _, hissue, rfl, rfl⟩ := h
  obtain ⟨-, hop, hscope⟩ := Capability.create_eq_ok hcreate
  exact ⟨bucket, cap, hbucket, requireBucketAllowed_eq_ok hallowed,
    issueCapability_eq_ok hissue, hscope, hop⟩

/-- A minted grant means its scope exactly when the match reads the scope as the constructor did, or
when there is no alias under either reading. -/
theorem minted_means_iff
    (h : mintCapability cfg env capId caller operation scope ttl single app = .ok id app') :
    ∃ bucket cap, normalizeSpace (partitionSlash (stripSlash scope)).1 = .ok bucket ∧
      assertServiceBucketAllowed caller bucket operation = .ok () ∧
      app'.capabilities.get id = some cap ∧ cap.scopePrefix = scope ∧ cap.operation = operation ∧
      (cap.Means bucket ↔ stripSlash scope = trimPath scope ∨
        (¬Addressable (trimPath scope) ∧ ¬Addressable (stripSlash scope))) := by
  obtain ⟨bucket, cap, hbucket, hallowed, hget, rfl, hop⟩ := mintCapability_eq_ok h
  exact ⟨bucket, cap, hbucket, hallowed, hget, rfl, hop, Capability.means_iff hbucket⟩

end Mints

/-- A store that nobody has used. -/
def freshApp : App := { guard := emptyGuard, capabilities := .empty }

theorem minted_means_iff_plain :
    ∃ id app', mintCapability {} plainEnv "c1".toList "fetcher".toList .write
      "/cache/m/".toList 60 false
        freshApp = .ok id app' ∧
      ∃ cap, app'.capabilities.get id = some cap ∧ cap.Means "cache".toList := by
  obtain ⟨id, app', h, -⟩ := exists_ok_of_returns (show returns (fun _ _ => true) (mintCapability {}
    plainEnv "c1".toList "fetcher".toList .write "/cache/m/".toList 60 false freshApp) = true by
      decide +kernel)
  obtain ⟨bucket, cap, hbucket, -, hget, -, -, hiff⟩ := minted_means_iff h
  obtain rfl : "cache".toList = bucket := Except.ok.inj ((show _ = _ by decide).symm.trans hbucket)
  exact ⟨id, app', h, cap, hget, hiff.mpr (.inl (by decide))⟩

/-- A grant for a scope with a blank after it is minted, and covers no alias of the scope. -/
theorem padded_scope_unusable :
    ∃ id app', mintCapability {} plainEnv "c1".toList "fetcher".toList .write
      "cache/m ".toList 60 false
        freshApp = .ok id app' ∧
      ∃ cap, app'.capabilities.get id = some cap ∧ ¬cap.Means "cache".toList := by
  obtain ⟨id, app', h, -⟩ := exists_ok_of_returns (show returns (fun _ _ => true) (mintCapability {}
    plainEnv "c1".toList "fetcher".toList .write "cache/m ".toList 60 false freshApp) = true by
      decide +kernel)
  obtain ⟨bucket, cap, -, -, hget, hscope, -⟩ := mintCapability_eq_ok h
  refine ⟨id, app', h, cap, hget, fun hmeans => ?_⟩
  have hparse : parseAlias "cache/m/x".toList =
    .ok ⟨"cache".toList, "m/x".toList, "m".toList, "x".toList, "cache/m/x".toList⟩ := by decide
  have hlast : cap.expiresAt - 1 < cap.expiresAt := sub_one_lt _
  have hallow := (hmeans _ _ hparse cap.operation _ hlast).mpr
    ⟨rfl, rfl, by rw [hscope]; decide⟩
  have hmatch := ((Capability.allows_iff hparse hlast).mp hallow).2
  rw [hscope] at hmatch
  exact absurd hmatch (by decide)

end AssetStore
