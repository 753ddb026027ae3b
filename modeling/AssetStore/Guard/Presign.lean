import AssetStore.Guard.Mediation

/-! Presigned reads. The lifetime of a URL is cut to the remaining lifetimes of its grant and of
its asset, in whole seconds, at two clock readings; the answer reports an expiry counted from a
third. -/

namespace AssetStore

open Lib

/-- `PresignedRead`. -/
structure PresignedRead where
  asset : Asset
  url : Text
  expiresIn : Int
  expiresAt : Time

/-- `MAX_PRESIGN_TTL_SECONDS`. -/
def maxPresignTtlSeconds : Int := 3600

/-- `int(delta.total_seconds())`, which truncates towards zero. The float in between is exact enough
for every lifetime that the greatest one does not cut off. -/
def wholeSeconds (delta : Int) : Int := delta.tdiv 1000000

/-- The lifetime, cut to what remains of the asset's. -/
def capByAsset (asset : Asset) (ttl : Int) : GuardProg Int :=
  match asset.expiresAt with
  | none => pure ttl
  | some deadline => do
    let now ← registry utcnow
    let ttl := min ttl (wholeSeconds (deadline - now))
    check (raiseIf (ttl ≤ 0)
      { cls := .assetExpired, message := "asset lifetime is too short to presign" })
    return ttl

/-- `presign_read`, over a store that signs URLs. -/
def presignRead (presignGetUrl : ObjectStoreLocation → Int → Except Err Text) (cap : Capability)
    (aliasName : Text) (expiresIn : Int := 300) : GuardProg PresignedRead := do
  check (raiseIf (cap.singleUse = true)
    { cls := .capabilityDenied
      message := "single-use capability cannot mint a presigned URL (FR-013)" })
  check (raiseIf (expiresIn ≤ 0)
    { cls := .validation, message := "expires_in must be a positive number of seconds" })
  let (asset, location) ← resolveForRead cap aliasName
  let now ← registry utcnow
  let remaining := wholeSeconds (cap.expiresAt - now)
  check (raiseIf (remaining ≤ 0)
    { cls := .capabilityDenied, message := "capability has expired" })
  let ttl ← capByAsset asset (min expiresIn (min maxPresignTtlSeconds remaining))
  let url ← check (presignGetUrl location ttl)
  registry (recordRead asset.assetId)
  let now ← registry utcnow
  return { asset, url, expiresIn := ttl, expiresAt := now + ttl * 1000000 }

/-! ### The readings of a call -/

/-- The limits on the lifetime: the asked one, the greatest one, and what remains of the grant at
the reading 3 and of the asset at the reading 4. -/
def presignLimits (cap : Capability) (a : Asset) (expiresIn : Int)
    (clock : Nat → Time) : List Int :=
  [expiresIn, maxPresignTtlSeconds, wholeSeconds (cap.expiresAt - clock 3)] ++
    (a.expiresAt.map fun deadline => wholeSeconds (deadline - clock 4)).toList

/-- Whether the read is recorded on an available asset. -/
def Registry.recordsRead (r : Registry) (a : Asset) : Bool :=
  (r.assets.get a.assetId).any fun b => b.state == .available

/-- The number of the reading that the reported expiry is counted from. -/
def answerReading (r : Registry) (a : Asset) : Nat :=
  4 + a.expiresAt.toList.length + (r.recordsRead a).toNat

section Calls

variable {presignGetUrl : ObjectStoreLocation → Int → Except Err Text} {cap : Capability}
  {aliasName : Text} {expiresIn ttl ttl' : Int} {a : Asset} {location : ObjectStoreLocation}
  {g g' : GuardState} {r : PresignedRead}

/-- A resolved read takes three readings and changes no table. -/
theorem resolveForRead_reads (h : alone (resolveForRead cap aliasName) g = .ok (a, location) g') :
    g'.reg = g.reg ∧ g'.clock = fun n => g.clock (n + 3) := by
  simp only [resolveForRead, alone_bind, bind_eq_ok, alone_registry, liftRegistry_eq_ok,
    alone_check, attempt_eq_ok, alone_pure, pure_eq_ok, Prod.mk.injEq] at h
  obtain ⟨parsed, g1, hauth, _, _, ⟨s1, hresolve, rfl⟩, _, _, ⟨-, rfl⟩, -, rfl⟩ := h
  obtain ⟨-, -, hreg, hclock, -⟩ := authorize_eq_ok hauth
  simp only [resolveAlias, bind_eq_ok, getBinding_eq_key, attempt_eq_ok, raiseNaming_eq_ok,
    getAsset_eq_ok, utcnow_eq_ok, pure_eq_ok] at hresolve
  obtain ⟨b, _, ⟨key, -, -, rfl⟩, _, _, ⟨-, rfl⟩, a', _, ⟨-, rfl⟩, _, _, ⟨-, rfl⟩, _, _,
    ⟨-, rfl⟩, _, _,
    ⟨-, rfl⟩, -, rfl⟩ := hresolve
  refine ⟨hreg, ?_⟩
  show (fun n => g1.clock (n + 1)) = _
  rw [hclock]

theorem recordRead_reads {id : Text} {u : Unit}
    (h : alone (registry (recordRead id)) g = .ok u g') :
    g'.clock = fun n => g.clock
      (n + ((g.reg.assets.get id).any fun b => b.state == .available).toNat) := by
  simp only [alone_registry, liftRegistry_eq_ok, recordRead, bind_eq_ok, getAsset_eq_ok] at h
  obtain ⟨s, ⟨b, _, ⟨hget, rfl⟩, h⟩, rfl⟩ := h
  rw [hget]
  split at h
  · rename_i hstate
    simp only [bind_eq_ok, utcnow_eq_ok, putAsset_eq_ok] at h
    obtain ⟨_, _, ⟨-, rfl⟩, rfl⟩ := h
    simp only [hstate, Session.tick, Option.any_some, beq_self_eq_true, Bool.toNat_true]
    rfl
  · rename_i hstate
    obtain ⟨-, rfl⟩ := pure_eq_ok.mp h
    have hother : (b.state == .available) = false := beq_eq_false_iff_ne.mpr hstate
    simp [hother]

theorem capByAsset_eq_ok (h : alone (capByAsset a ttl) g = .ok ttl' g') :
    ttl' = (a.expiresAt.map fun deadline =>
      wholeSeconds (deadline - g.clock 0)).toList.foldl min ttl ∧
      (0 < ttl → 0 < ttl') ∧ g'.reg = g.reg ∧
      g'.clock = fun n => g.clock (n + a.expiresAt.toList.length) := by
  unfold capByAsset at h
  cases hdeadline : a.expiresAt with
  | none =>
    simp only [hdeadline, alone_pure, pure_eq_ok] at h
    obtain ⟨rfl, rfl⟩ := h
    simp
  | some deadline =>
    simp only [hdeadline, alone_bind, bind_eq_ok, alone_registry, liftRegistry_eq_ok, utcnow_eq_ok,
      alone_check, attempt_eq_ok, raiseIf_eq_ok, alone_pure, pure_eq_ok, not_le] at h
    obtain ⟨_, _, ⟨s, ⟨rfl, rfl⟩, rfl⟩, _, _, ⟨hpos, rfl⟩, rfl, rfl⟩ := h
    exact ⟨rfl, fun _ => hpos, rfl, rfl⟩

/-- What a call that returns has computed, and from which readings. -/
theorem presignRead_eq_ok (h : alone
      (presignRead presignGetUrl cap aliasName expiresIn) g = .ok r g') :
    ∃ location g1, alone (resolveForRead cap aliasName) g = .ok (r.asset, location) g1 ∧
      0 < r.expiresIn ∧
      r.expiresIn = (presignLimits cap r.asset expiresIn g.clock).foldl min expiresIn ∧
      r.expiresAt = g.clock (answerReading g.reg r.asset) + r.expiresIn * 1000000 := by
  simp only [presignRead, alone_bind, bind_eq_ok, alone_check, attempt_eq_ok, raiseIf_eq_ok] at h
  obtain ⟨_, _, ⟨-, rfl⟩, _, _, ⟨hasked, rfl⟩, ⟨asset, location⟩, g1, hresolve, now, g2, hnow, _, _,
    ⟨hremaining, rfl⟩, ttl, g3, hcap, url, _, ⟨-, rfl⟩, _, g4, hrecord, now', g5, hnow', hret⟩ := h
  obtain ⟨rfl, -⟩ := pure_eq_ok.mp hret
  obtain ⟨hreg1, hclock1⟩ := resolveForRead_reads hresolve
  simp only [alone_registry, liftRegistry_eq_ok, utcnow_eq_ok] at hnow hnow'
  obtain ⟨_, ⟨rfl, rfl⟩, rfl⟩ := hnow
  obtain ⟨_, ⟨rfl, rfl⟩, rfl⟩ := hnow'
  obtain ⟨httl, hpos, hreg3, hclock3⟩ := capByAsset_eq_ok hcap
  have hclock4 := recordRead_reads hrecord
  simp only [Session.tick, hclock1, Nat.zero_add, Nat.reduceAdd, not_le] at httl hpos hremaining
  have hmax : (0 : Int) < maxPresignTtlSeconds := by decide
  refine ⟨location, g1, hresolve, hpos (by omega), ?_, ?_⟩
  · show ttl = _
    rw [httl]
    simp [presignLimits, min_assoc]
  · show g4.clock 0 + ttl * 1000000 = g.clock (answerReading g.reg asset) + ttl * 1000000
    rw [hclock4, hclock3, hreg3]
    show g1.clock _ + _ = _
    rw [hclock1]
    show g.clock (0 + ((g1.reg.assets.get asset.assetId).any _).toNat + _ + 1 + 3) + _ = _
    have hcount : ∀ m n, 0 + m + n + 1 + 3 = 4 + n + m := by omega
    rw [hreg1, hcount]
    rfl

/-- A least element has a property that passes down exactly when some element has it. -/
theorem foldl_min_iff {p : Int → Prop} (down : ∀ m n, m ≤ n → p n → p m) (l : List Int) (n : Int) :
    p (l.foldl min n) ↔ p n ∨ ∃ m ∈ l, p m := by
  have hmin : ∀ m n, p (min m n) ↔ p m ∨ p n := by
    intro m n
    rcases le_total m n with hle | hle
    · rw [min_eq_left hle]
      exact ⟨.inl, fun h => h.elim id (down m n hle)⟩
    · rw [min_eq_right hle]
      exact ⟨.inr, fun h => h.elim (down n m hle) id⟩
  induction l generalizing n with
  | nil => simp
  | cons first rest ih =>
    refine (ih (min n first)).trans ?_
    rw [hmin]
    simp only [List.mem_cons, exists_eq_or_imp, or_assoc]

/-! ### Deadlines -/

/-- The answer promises at least a second, at most what was asked for, and nothing beyond the expiry
of the grant or of the asset. -/
structure PresignedRead.Bounded (r : PresignedRead) (cap : Capability)
    (expiresIn : Int) : Prop where
  positive : 0 < r.expiresIn
  asked : r.expiresIn ≤ min expiresIn maxPresignTtlSeconds
  grant : r.expiresAt ≤ cap.expiresAt
  asset : ∀ deadline, r.asset.expiresAt = some deadline → r.expiresAt ≤ deadline

/-- Some limit on the lifetime, counted from the reported reading, ends in time for the deadline.
The asset is the one found before the call. -/
def InTime (cap : Capability) (r : Registry) (a : Asset) (expiresIn : Int) (clock : Nat → Time)
    (deadline : Time) : Prop :=
  ∃ limit ∈ presignLimits cap a expiresIn clock,
    clock (answerReading r a) + limit * 1000000 ≤ deadline

theorem expiresIn_le {limit : Int}
    (h : alone (presignRead presignGetUrl cap aliasName expiresIn) g = .ok r g')
    (hlimit : limit ∈ presignLimits cap r.asset expiresIn g.clock) : r.expiresIn ≤ limit := by
  obtain ⟨_, _, -, -, httl, -⟩ := presignRead_eq_ok h
  rw [httl]
  exact (foldl_min_iff (p := fun n => n ≤ limit) (fun _ _ => le_trans) _ _).mpr
    (.inr ⟨limit, hlimit, le_rfl⟩)

theorem expiresAt_le_iff {deadline : Time}
    (h : alone (presignRead presignGetUrl cap aliasName expiresIn) g = .ok r g') :
    r.expiresAt ≤ deadline ↔ InTime cap g.reg r.asset expiresIn g.clock deadline := by
  obtain ⟨_, _, -, -, httl, hat⟩ := presignRead_eq_ok h
  rw [hat, httl]
  refine (foldl_min_iff (p := fun n => g.clock (answerReading g.reg r.asset) + n *
    1000000 ≤ deadline)
    (fun m n hle hn => ?_) _ _).trans ⟨?_, .inr⟩
  · show g.clock (answerReading g.reg r.asset) + m * 1000000 ≤ deadline
    have hscaled : m * 1000000 ≤ n * 1000000 := by omega
    exact (Int.add_le_add_left hscaled _).trans hn
  · rintro (hasked | hlimit)
    · exact ⟨expiresIn, by simp [presignLimits], hasked⟩
    · exact hlimit

theorem bounded_iff_inTime
    (h : alone (presignRead presignGetUrl cap aliasName expiresIn) g = .ok r g') :
    r.Bounded cap expiresIn ↔
      InTime cap g.reg r.asset expiresIn g.clock cap.expiresAt ∧
        ∀ deadline, r.asset.expiresAt = some deadline →
          InTime cap g.reg r.asset expiresIn g.clock deadline := by
  obtain ⟨location, g1, hresolve, hpositive, -, -⟩ := presignRead_eq_ok h
  have hasked : r.expiresIn ≤ min expiresIn maxPresignTtlSeconds :=
    le_min (expiresIn_le h (by simp [presignLimits])) (expiresIn_le h (by simp [presignLimits]))
  constructor
  · intro hbounded
    exact ⟨(expiresAt_le_iff h).mp hbounded.grant,
      fun deadline hd => (expiresAt_le_iff h).mp (hbounded.asset deadline hd)⟩
  · rintro ⟨hgrant, hasset⟩
    exact ⟨hpositive, hasked, (expiresAt_le_iff h).mpr hgrant,
      fun deadline hd => (expiresAt_le_iff h).mpr (hasset deadline hd)⟩

/-- A presigned URL ends with its grant and its asset exactly when, for each of the two deadlines,
one of the limits counted from the last reading ends in time. -/
theorem presign_bounded_iff
    (h : alone (presignRead presignGetUrl cap aliasName expiresIn) g = .ok r g') :
    ∃ parsed path a, parseAlias aliasName = .ok parsed ∧
      parsed.qualified = parsed.space ++ '/' :: path ∧
      g.reg.assetUnder (parsed.space ++ '/' :: trimPath path) = some a ∧ r.asset = a ∧
      (r.Bounded cap expiresIn ↔
        InTime cap g.reg a expiresIn g.clock cap.expiresAt ∧
          ∀ deadline, a.expiresAt = some deadline →
            InTime cap g.reg a expiresIn g.clock deadline) := by
  obtain ⟨location, g1, hresolve, -, -, -⟩ := presignRead_eq_ok h
  obtain ⟨parsed, path, hparse, hq, -, hfound, -⟩ := resolveForRead_eq_ok hresolve
  exact ⟨parsed, path, r.asset, hparse, hq, hfound, rfl, bounded_iff_inTime h⟩

theorem add_wholeSeconds_le {deadline now last : Int} (hleft : 0 ≤ deadline - now)
    (hprompt : last - now ≤ (deadline - now) % 1000000) :
    last + wholeSeconds (deadline - now) * 1000000 ≤ deadline := by
  rw [wholeSeconds, Int.tdiv_eq_ediv_of_nonneg hleft]
  omega

/-- A call keeps every deadline when, from each reading to the last, no more time passes than the
fraction of a second that was cut off there. -/
theorem presign_bounded_of_prompt
    (h : alone (presignRead presignGetUrl cap aliasName expiresIn) g = .ok r g')
    (grant : g.clock (answerReading g.reg r.asset) - g.clock 3 ≤
      (cap.expiresAt - g.clock 3) % 1000000)
    (asset : ∀ deadline, r.asset.expiresAt = some deadline →
      g.clock (answerReading g.reg r.asset) - g.clock 4 ≤ (deadline - g.clock 4) % 1000000) :
    r.Bounded cap expiresIn := by
  obtain ⟨_, _, -, hpositive, -, -⟩ := presignRead_eq_ok h
  have hcut : ∀ deadline now : Int,
      wholeSeconds (deadline - now) ∈ presignLimits cap r.asset expiresIn g.clock →
      g.clock (answerReading g.reg r.asset) - now ≤ (deadline - now) % 1000000 →
      InTime cap g.reg r.asset expiresIn g.clock deadline := by
    intro deadline now hlimit hprompt
    refine ⟨_, hlimit, ?_⟩
    have hle := expiresIn_le h hlimit
    have hleft : 0 ≤ deadline - now := by
      by_contra hneg
      have hpast : 0 ≤ (now - deadline).tdiv 1000000 := Int.tdiv_nonneg (by omega) (by decide)
      have hnone : wholeSeconds (deadline - now) = -(now - deadline).tdiv 1000000 := by
        rw [wholeSeconds, ← Int.neg_tdiv, neg_sub]
      omega
    exact add_wholeSeconds_le hleft hprompt
  refine (bounded_iff_inTime h).mpr
    ⟨hcut _ _ (by simp [presignLimits]) grant, fun deadline hd => ?_⟩
  exact hcut deadline _ (by simp [presignLimits, hd]) (asset deadline hd)

end Calls

/-- A capability of the fetcher to read under `cache/m` for a minute from the instant 2. -/
def minuteGrant : Capability :=
  { readGrant "cache/m".toList plainScope_valid with expiresAt := 60000002 }

/-- A store that signs every location. -/
def signed (location : ObjectStoreLocation) (_ : Int) : Except Err Text := .ok location.key

theorem presign_bounded_iff_still :
    ∃ r g', alone (presignRead signed minuteGrant "cache/m/x".toList 100) uploadedGuard = .ok r g' ∧
      r.Bounded minuteGrant 100 := by
  obtain ⟨r, g', h, hr⟩ := exists_ok_of_returns (show returns
    (fun r _ => r.asset.expiresAt == none) (alone
      (presignRead signed minuteGrant "cache/m/x".toList 100) uploadedGuard) =
        true by decide +kernel)
  have hnone : r.asset.expiresAt = none := by simpa using hr
  obtain ⟨_, _, _, -, -, -, rfl, hiff⟩ := presign_bounded_iff h
  have hlimit : 60 ∈ presignLimits minuteGrant r.asset 100 uploadedGuard.clock := by
    rw [presignLimits, hnone]
    decide
  have hstill : (2 : Int) + 60 * 1000000 ≤ minuteGrant.expiresAt := by decide
  exact ⟨r, g', h, hiff.mpr ⟨⟨60, hlimit, hstill⟩, by simp [hnone]⟩⟩

/-- The clock of a call during which a microsecond passes after the remaining lifetime was read. -/
def tickingGuard : GuardState := { uploadedGuard with clock := fun n => if n < 4 then 2 else 3 }

/-- A grant of a whole number of seconds is outlived as soon as the clock moves within the call. -/
theorem presign_outlives_grant :
    (∀ m n, m ≤ n → tickingGuard.clock m ≤ tickingGuard.clock n) ∧
      ∃ r g', alone (presignRead signed minuteGrant "cache/m/x".toList 100) tickingGuard =
        .ok r g' ∧
        minuteGrant.expiresAt < r.expiresAt := by
  obtain ⟨r, g', h, hr⟩ := exists_ok_of_returns (show returns
    (fun r _ => decide (minuteGrant.expiresAt < r.expiresAt)) (alone
      (presignRead signed minuteGrant "cache/m/x".toList 100) tickingGuard) =
        true by decide +kernel)
  refine ⟨fun m n hle => ?_, r, g', h, by simpa using hr⟩
  show (if m < 4 then (2 : Int) else 3) ≤ if n < 4 then 2 else 3
  split <;> split <;> omega

end AssetStore
