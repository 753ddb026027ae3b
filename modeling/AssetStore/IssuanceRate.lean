import AssetStore.Lib.Dict
import AssetStore.Lib.TokenBucket
import AssetStore.Paths
import Mathlib.Data.Rat.Floor

/-! Issuance rates: a token bucket for each configured identity. An attempt that is turned away is
told how long to wait. Instants are seconds of a monotonic clock, as exact rationals. -/

namespace AssetStore

open Lib

/-! ### `issuance_rate.py` -/

/-- `_Credit`. -/
abbrev Credit := Bucket Rat

/-- `IssuanceRateLimiter`, its clock apart. -/
structure IssuanceRateLimiter where
  rate : Rat
  burst : Int
  credit : Dict Text Credit

/-- `IssuanceRateLimiter(...)`, when the clock reads `now`. -/
def IssuanceRateLimiter.create (identities : List Text) (perMinute burst : Int) (now : Rat) :
    Except Err IssuanceRateLimiter := do
  raiseIf (perMinute ≤ 0 ∨ burst ≤ 0)
    { cls := .validation, message := "capability rate and burst must be positive" }
  return { rate := perMinute / 60, burst
           credit := identities.foldl (fun credit identity =>
             credit.set identity ⟨burst, now⟩) .empty }

/-- `CapabilityRateError`. -/
def rateExhausted (retryAfter : Nat) : Err :=
  { cls := .capabilityRate retryAfter,
    message := "capability issuance rate exhausted; retry with backoff" }

/-- What `admit` does with the credit of the identity, when the clock reads `now`. -/
def Credit.admitCall (rate : Rat) (burst : Int) (credit : Credit) (now : Rat) :
    Except Err Unit × Credit :=
  let tokens := min (burst : Rat) (credit.tokens + max 0 (now - credit.updatedAt) * rate)
  let updatedAt := max now credit.updatedAt
  if tokens < 1 then
    (.error (rateExhausted (max 1 ⌈(1 - tokens) / rate⌉).toNat), { tokens, updatedAt })
  else (.ok (), { tokens := tokens - 1, updatedAt })

/-- `admit`: an identity without a credit does not look at the clock. -/
def IssuanceRateLimiter.admitCall (limiter : IssuanceRateLimiter) (identity : Text) (now : Rat) :
    Except Err Unit × IssuanceRateLimiter :=
  match limiter.credit.get identity with
  | none =>
    (.error { cls := .serviceAuth, message := "identity is not configured for issuance" }, limiter)
  | some credit =>
    let (outcome, left) := Credit.admitCall limiter.rate limiter.burst credit now
    (outcome, { limiter with credit := limiter.credit.set identity left })

/-! ### Runs -/

/-- A call of `admit`, with what the clock reads in it. -/
structure Attempt where
  identity : Text
  now : Rat

namespace IssuanceRateLimiter

/-- The limiter after some calls. -/
def after (limiter : IssuanceRateLimiter) (calls : List Attempt) : IssuanceRateLimiter :=
  calls.foldl (fun limiter call => (limiter.admitCall call.identity call.now).2) limiter

/-- The outcomes of the calls of one identity, in their order. -/
def outcomesOf (identity : Text) : IssuanceRateLimiter → List Attempt → List (Except Err Unit)
  | _, [] => []
  | limiter, call :: rest =>
    let (outcome, limiter') := limiter.admitCall call.identity call.now
    if call.identity = identity then outcome :: outcomesOf identity limiter' rest
    else outcomesOf identity limiter' rest

end IssuanceRateLimiter

/-- What the clock reads in the calls of one identity. -/
def readingsOf (identity : Text) (calls : List Attempt) : List Rat :=
  (calls.filter fun call => call.identity = identity).map (·.now)

/-- The latest reading of the clock that counts for an identity: the one at the start, or a later
one in its own calls. -/
def latestReading (identity : Text) (start : Rat) (calls : List Attempt) : Rat :=
  (readingsOf identity calls).foldl max start

section Credits

variable {rate : Rat} {burst : Int} {now : Rat} {credit : Credit} {readings : List Rat}

theorem Credit.admit_of_admits (h : credit.admits rate burst now) :
    Credit.admitCall rate burst credit now = (.ok (), credit.spend rate burst now) := by
  rw [Bucket.spend_of_admits h]
  exact if_neg (not_lt.mpr h)

/-- An attempt that is turned away is told to wait for the rest of a token, rounded up. -/
theorem Credit.admit_of_not_admits (h : ¬credit.admits rate burst now) :
    Credit.admitCall rate burst credit now =
      (.error (rateExhausted (max 1 ⌈(1 - (credit.spend rate burst now).tokens) / rate⌉).toNat),
        credit.spend rate burst now) := by
  rw [Bucket.spend_of_not_admits h]
  exact if_pos (not_le.mp h)

theorem Credit.admit_snd :
    (Credit.admitCall rate burst credit now).2 = credit.spend rate burst now := by
  by_cases h : credit.admits rate burst now
  · rw [Credit.admit_of_admits h]
  · rw [Credit.admit_of_not_admits h]

theorem Credit.admit_isOk :
    (Credit.admitCall rate burst credit now).1.isOk = decide (credit.admits rate burst now) := by
  by_cases h : credit.admits rate burst now
  · rw [Credit.admit_of_admits h, decide_eq_true h]
    rfl
  · rw [Credit.admit_of_not_admits h, decide_eq_false h]
    rfl

/-- The outcomes of attempts on one credit. -/
def Credit.outcomes (rate : Rat) (burst : Int) : Credit → List Rat → List (Except Err Unit)
  | _, [] => []
  | credit, now :: rest =>
    (Credit.admitCall rate burst credit now).1 ::
      outcomes rate burst (Credit.admitCall rate burst credit now).2 rest

theorem Credit.countP_outcomes :
    (Credit.outcomes rate burst credit readings).countP Except.isOk =
      Bucket.admitted rate burst credit readings := by
  induction readings generalizing credit with
  | nil => rfl
  | cons now rest ih =>
    simp only [Credit.outcomes, Bucket.admitted, List.countP_cons, ih, Credit.admit_isOk,
      Credit.admit_snd, decide_eq_true_eq]
    omega

end Credits

namespace IssuanceRateLimiter

section Identities

variable {limiter : IssuanceRateLimiter} {identity : Text} {now : Rat} {credit : Credit}
  {calls before between : List Attempt} {call : Attempt}

theorem after_append : limiter.after (before ++ calls) = (limiter.after before).after calls :=
  List.foldl_append

theorem after_concat : limiter.after (before ++ [call]) =
    ((limiter.after before).admitCall call.identity call.now).2 := after_append

theorem after_cons : limiter.after (call :: calls) =
    (limiter.admitCall call.identity call.now).2.after calls := rfl

@[simp] theorem admit_rate : (limiter.admitCall identity now).2.rate = limiter.rate := by
  unfold admitCall
  split <;> rfl

@[simp] theorem admit_burst : (limiter.admitCall identity now).2.burst = limiter.burst := by
  unfold admitCall
  split <;> rfl

@[simp] theorem after_rate : (limiter.after calls).rate = limiter.rate := by
  induction calls generalizing limiter with
  | nil => rfl
  | cons call rest ih => rw [after_cons, ih, admit_rate]

@[simp] theorem after_burst : (limiter.after calls).burst = limiter.burst := by
  induction calls generalizing limiter with
  | nil => rfl
  | cons call rest ih => rw [after_cons, ih, admit_burst]

theorem admit_of_credit (now : Rat) (h : limiter.credit.get identity = some credit) :
    (limiter.admitCall identity now).1 =
      (Credit.admitCall limiter.rate limiter.burst credit now).1 ∧
      (limiter.admitCall identity now).2.credit =
        limiter.credit.set identity (credit.spend limiter.rate limiter.burst now) := by
  simp only [admitCall, h, true_and]
  exact congrArg _ Credit.admit_snd

/-- A call leaves the credit of the other identities. -/
theorem admit_other {other : Text} (h : identity ≠ other) :
    (limiter.admitCall other now).2.credit.get identity = limiter.credit.get identity := by
  cases hother : limiter.credit.get other with
  | none => simp [admitCall, hother]
  | some credit => rw [(admit_of_credit now hother).2, Dict.get_set_ne _ _ h]

theorem readingsOf_append :
    readingsOf identity (before ++ calls) = readingsOf identity before ++
      readingsOf identity calls := by
  simp [readingsOf]

/-- What the limiter keeps of an identity, and what it answers, are those of one token bucket that
sees the clock readings of this identity only. -/
theorem credit_after (calls : List Attempt) (h : limiter.credit.get identity = some credit) :
    (limiter.after calls).credit.get identity =
      some (credit.spendAll limiter.rate limiter.burst (readingsOf identity calls)) ∧
    limiter.outcomesOf identity calls =
      Credit.outcomes limiter.rate limiter.burst credit (readingsOf identity calls) := by
  induction calls generalizing limiter credit with
  | nil => exact ⟨h, rfl⟩
  | cons call rest ih =>
    by_cases hcall : call.identity = identity
    · -- a call of the identity is an attempt on its bucket
      have hreadings : readingsOf identity (call :: rest) = call.now ::
          readingsOf identity rest := by
        simp [readingsOf, hcall]
      obtain ⟨houtcome, hcredit⟩ := admit_of_credit call.now h
      have hleft : (limiter.admitCall identity call.now).2.credit.get identity =
          some (credit.spend limiter.rate limiter.burst call.now) := by
        rw [hcredit, Dict.get_set_self]
      obtain ⟨hafter, hrest⟩ := ih hleft
      rw [admit_rate, admit_burst] at hafter hrest
      rw [after_cons, hcall, hreadings, hafter, Bucket.spendAll_cons, eq_self, true_and]
      simp only [outcomesOf, hcall, if_true, Credit.outcomes]
      rw [houtcome, hrest, Credit.admit_snd]
    · -- a call of another identity is no attempt at all
      have hreadings : readingsOf identity (call :: rest) = readingsOf identity rest := by
        simp [readingsOf, hcall]
      have hleft : (limiter.admitCall call.identity call.now).2.credit.get identity = some credit :=
        (admit_other (Ne.symm hcall)).trans h
      obtain ⟨hafter, hrest⟩ := ih hleft
      rw [admit_rate, admit_burst] at hafter hrest
      rw [after_cons, hreadings, hafter, eq_self, true_and]
      simp only [outcomesOf, hcall, if_false]
      exact hrest

/-- An identity without a credit stays without one, and each of its calls is refused. -/
theorem no_credit_after (calls : List Attempt) (h : limiter.credit.get identity = none) :
    (limiter.after calls).credit.get identity = none ∧
    limiter.outcomesOf identity calls = (readingsOf identity calls).map fun _ =>
      .error { cls := .serviceAuth, message := "identity is not configured for issuance" } := by
  induction calls generalizing limiter with
  | nil => exact ⟨h, rfl⟩
  | cons call rest ih =>
    by_cases hcall : call.identity = identity
    · have hsame : (limiter.admitCall identity call.now).2 = limiter := by simp [admitCall, h]
      obtain ⟨hafter, hrest⟩ := ih h
      rw [after_cons, hcall, hsame]
      refine ⟨hafter, ?_⟩
      simp only [outcomesOf, hcall, if_true, hsame, hrest]
      simp [readingsOf, hcall, admitCall, h]
    · have hnone : (limiter.admitCall call.identity call.now).2.credit.get identity = none :=
        (admit_other (Ne.symm hcall)).trans h
      obtain ⟨hafter, hrest⟩ := ih hnone
      refine ⟨hafter, ?_⟩
      simp only [outcomesOf, hcall, if_false, hrest]
      simp [readingsOf, hcall]

/-- The credits of a new limiter are full and were looked at when it was built. -/
theorem create_eq_ok {identities : List Text} {perMinute burst : Int}
    (h : create identities perMinute burst now = .ok limiter) :
    0 < perMinute ∧ 0 < burst ∧ limiter.rate = perMinute / 60 ∧ limiter.burst = burst ∧
      ∀ identity credit, limiter.credit.get identity = some credit → credit = ⟨burst, now⟩ := by
  simp only [create, except_bind_eq_ok, raiseIf_eq_ok, not_or, not_le, except_pure_eq_ok] at h
  obtain ⟨_, ⟨hrate, hburst⟩, rfl⟩ := h
  refine ⟨hrate, hburst, rfl, rfl, ?_⟩
  have hfold :
      ∀ (names : List Text) (d : Dict Text Credit), (∀ id c, d.get id = some c → c = ⟨burst, now⟩) →
      ∀ id c, (names.foldl (fun d name => d.set name ⟨burst, now⟩) d).get id = some c →
        c = ⟨burst, now⟩ := by
    intro names
    induction names with
    | nil => exact fun d hd => hd
    | cons name rest ih =>
      intro d hd
      apply ih
      intro id c hc
      rw [Dict.get_set] at hc
      split at hc
      · exact (Option.some.inj hc).symm
      · exact hd id c hc
  exact hfold identities .empty fun _ _ hc => by simp at hc

end Identities

end IssuanceRateLimiter

/-! ### Windows -/

section Windows

variable {identities : List Text} {perMinute burst : Int} {start : Rat}
  {limiter : IssuanceRateLimiter}

open IssuanceRateLimiter

/-- The calls of other identities make no difference to an identity. -/
theorem outcomesOf_filter (limiter : IssuanceRateLimiter) (identity : Text) (calls : List Attempt) :
    limiter.outcomesOf identity calls =
      limiter.outcomesOf identity (calls.filter fun call => call.identity = identity) := by
  have hreadings : readingsOf identity (calls.filter fun call => call.identity = identity) =
      readingsOf identity calls := by simp [readingsOf]
  cases hget : limiter.credit.get identity with
  | none => rw [(no_credit_after _ hget).2, (no_credit_after _ hget).2, hreadings]
  | some credit => rw [(credit_after _ hget).2, (credit_after _ hget).2, hreadings]

/-- An identity that has a credit has, after some calls, what is left of a full bucket. -/
theorem credit_of_create (made : create identities perMinute burst start = .ok limiter)
    {identity : Text}
    (calls : List Attempt) {credit : Credit}
    (h : (limiter.after calls).credit.get identity = some credit) :
    limiter.credit.get identity = some ⟨burst, start⟩ ∧
      credit = Bucket.spendAll (perMinute / 60 : Rat) burst ⟨burst, start⟩
        (readingsOf identity calls) := by
  obtain ⟨-, -, hrate, hburst, hfull⟩ := create_eq_ok made
  cases hget : limiter.credit.get identity with
  | none => simp [(no_credit_after calls hget).1] at h
  | some credit' =>
    obtain rfl := hfull identity credit' hget
    rw [(credit_after calls hget).1, hrate, hburst] at h
    exact ⟨rfl, (Option.some.inj h).symm⟩

/-- The credit of an identity is never a debt and never exceeds `burst`. -/
theorem credit_bounded (made : create identities perMinute burst start = .ok limiter)
    {identity : Text}
    (calls : List Attempt) {credit : Credit}
    (h : (limiter.after calls).credit.get identity = some credit) :
    Bucket.Bounded (burst : Rat) credit := by
  obtain ⟨hperMinute, hburst, -⟩ := create_eq_ok made
  obtain ⟨-, rfl⟩ := credit_of_create made calls h
  have hcapacity : (0 : Rat) ≤ burst := by exact_mod_cast hburst.le
  have hfull : Bucket.Bounded (burst : Rat) ⟨burst, start⟩ := ⟨hcapacity, le_rfl⟩
  exact hfull.spendAll (by positivity)

/-- Between two points of a sequence of calls an identity is admitted at most `burst` times and as
often as tokens accrue. -/
theorem admissions_le (made : create identities perMinute burst start = .ok limiter)
    (identity : Text)
    (before between : List Attempt) :
    ((((limiter.after before).outcomesOf identity between).countP Except.isOk : Nat) : Rat) ≤
      burst + perMinute / 60 *
        (latestReading identity start (before ++ between) -
          latestReading identity start before) := by
  obtain ⟨hperMinute, hburst, hrate, hcapacity, -⟩ := create_eq_ok made
  have hpos : (0 : Rat) ≤ perMinute / 60 := by positivity
  have hlater : latestReading identity start (before ++ between) =
      (readingsOf identity between).foldl max (latestReading identity start before) := by
    rw [latestReading, readingsOf_append, List.foldl_append]
    rfl
  rw [hlater]
  cases hget : (limiter.after before).credit.get identity with
  | none =>
    -- an identity that is not configured is never admitted
    have hzero : ((limiter.after before).outcomesOf identity between).countP Except.isOk = 0 := by
      rw [(no_credit_after between hget).2]
      simp [Except.isOk, Except.toBool]
    have hgain := mul_nonneg hpos
      (sub_nonneg.mpr (le_foldl_max (latestReading identity start before)
        (readingsOf identity between)))
    have hcapacity' : (0 : Rat) ≤ burst := by exact_mod_cast hburst.le
    rw [hzero, Nat.cast_zero]
    exact add_nonneg hcapacity' hgain
  | some credit =>
    obtain ⟨-, hcredit⟩ := credit_of_create made before hget
    have hupdated : credit.updatedAt = latestReading identity start before := by
      rw [hcredit, Bucket.spendAll_updatedAt]
      rfl
    have hwindow := Bucket.admitted_le (readingsOf identity between)
      (credit_bounded made before hget) hpos
    rw [Bucket.spendAll_updatedAt, hupdated] at hwindow
    rw [(credit_after between hget).2, Credit.countP_outcomes, after_rate, after_burst,
      hrate, hcapacity]
    exact hwindow

/-- In any window an identity is admitted at most `burst` times and as often as tokens accrue, its
credit stays between nothing and `burst`, and the calls of other identities make no difference to
it. -/
theorem issuance_bounded (made : create identities perMinute burst start = .ok limiter)
    (identity : Text)
    (before between : List Attempt) :
    ((((limiter.after before).outcomesOf identity between).countP Except.isOk : Nat) : Rat) ≤
      burst + perMinute / 60 *
        (latestReading identity start (before ++ between) - latestReading identity start before) ∧
    (∀ credit, (limiter.after before).credit.get identity = some credit →
      0 ≤ credit.tokens ∧ credit.tokens ≤ burst) ∧
    limiter.outcomesOf identity before =
      limiter.outcomesOf identity (before.filter fun call => call.identity = identity) := by
  refine ⟨admissions_le made identity before between, ?_, outcomesOf_filter limiter identity before⟩
  intro credit h
  have hbounded := credit_bounded made before h
  exact ⟨hbounded.nonneg, hbounded.le_burst⟩

/-- Three calls at once on a full bucket of two tokens. -/
theorem issuance_bounded_burst : ∃ limiter, create ["a".toList, "b".toList] 30 2 0 = .ok limiter ∧
    (((limiter.outcomesOf "a".toList [⟨"a".toList, 0⟩, ⟨"a".toList, 0⟩, ⟨"a".toList, 0⟩]).countP
      Except.isOk : Nat) : Rat) ≤ 2 := by
  obtain ⟨limiter, made⟩ : ∃ limiter, create ["a".toList, "b".toList] 30 2 0 =
      .ok limiter := ⟨_, rfl⟩
  have hbound := (issuance_bounded made "a".toList []
    [⟨"a".toList, 0⟩, ⟨"a".toList, 0⟩, ⟨"a".toList, 0⟩]).1
  refine ⟨limiter, made, ?_⟩
  simpa [latestReading, readingsOf, after] using hbound

/-! ### Waiting -/

/-- A whole number of seconds is enough for the rest of a token exactly when it is at least the
wait. -/
theorem wait_le_iff {rate tokens : Rat} (hrate : 0 < rate) (hlow : tokens < 1) {d : Nat} :
    1 ≤ tokens + rate * d ↔ (max 1 ⌈(1 - tokens) / rate⌉).toNat ≤ d := by
  have hpos : 0 < ⌈(1 - tokens) / rate⌉ := Int.ceil_pos.mpr (div_pos (sub_pos.mpr hlow) hrate)
  rw [max_eq_right (by omega), Int.toNat_le, Int.ceil_le, div_le_iff₀ hrate]
  constructor
  · intro h
    push_cast
    linarith
  · intro h
    push_cast at h
    linarith

theorem rising_cases {start t now : Rat} {before between : List Rat}
    (h : (start :: (before ++ t :: between ++ [now])).Pairwise (· ≤ ·)) :
    start ≤ t ∧ (∀ x ∈ before, x ≤ t) ∧ (∀ x ∈ between, x ≤ now) ∧ t ≤ now := by
  obtain ⟨hstart, hrest⟩ := List.pairwise_cons.mp h
  obtain ⟨hcalls, -, hnow⟩ := List.pairwise_append.mp hrest
  obtain ⟨-, -, ht⟩ := List.pairwise_append.mp hcalls
  refine ⟨hstart t (by simp), fun x hx => ht x hx t (by simp), fun x hx => ?_, ?_⟩
  · exact hnow x (by simp [hx]) now (by simp)
  · exact hnow t (by simp) now (by simp)

theorem mem_readingsOf {identity : Text} {calls : List Attempt} {x : Rat}
    (h : x ∈ readingsOf identity calls) : x ∈ calls.map Attempt.now := by
  obtain ⟨call, hcall, rfl⟩ := List.mem_map.mp h
  exact List.mem_map_of_mem (List.mem_of_mem_filter hcall)

/-- A call that is refused at the instant `t` leaves a credit below one token that was looked at
then. After more calls that are not admitted, the identity is admitted as soon as the wait is
over. -/
theorem admits_after_refused (made : create identities perMinute burst start = .ok limiter)
    (identity : Text)
    (before between : List Attempt) (t now : Rat) {d : Nat}
    (rising : (start :: (before.map Attempt.now ++ t :: between.map Attempt.now ++ [now])).Pairwise
      (· ≤ ·))
    (refused : ((limiter.after before).admitCall identity t).1 = .error (rateExhausted d))
    (starved : ((limiter.after (before ++ [⟨identity, t⟩])).outcomesOf identity between).countP
      Except.isOk = 0) :
    ∃ low : Credit, low.tokens < 1 ∧ d = (max 1 ⌈(1 - low.tokens) / limiter.rate⌉).toNat ∧
      ∃ left : Credit,
        (limiter.after (before ++ ⟨identity, t⟩ :: between)).credit.get identity = some left ∧
        (left.admits limiter.rate limiter.burst now ↔
          1 ≤ low.tokens + limiter.rate * (now - t)) := by
  obtain ⟨hperMinute, hburst, hrate, hcapacity, -⟩ := create_eq_ok made
  obtain ⟨hstart, hbefore, hbetween, hnow⟩ := rising_cases rising
  have hone : (1 : Rat) ≤ limiter.burst := by
    rw [hcapacity]
    exact_mod_cast hburst
  cases hget : (limiter.after before).credit.get identity with
  | none => simp [admitCall, hget, rateExhausted] at refused
  | some credit =>
    obtain ⟨-, hcredit⟩ := credit_of_create made before hget
    have hupdated : credit.updatedAt ≤ t := by
      rw [hcredit, Bucket.spendAll_updatedAt, foldl_max_le]
      exact ⟨hstart, fun x hx => hbefore x (mem_readingsOf hx)⟩
    obtain ⟨houtcome, hset⟩ := admit_of_credit t hget
    rw [after_rate, after_burst] at houtcome hset
    rw [houtcome] at refused
    have hdenied : ¬credit.admits limiter.rate limiter.burst t := by
      intro h
      rw [Credit.admit_of_admits h] at refused
      cases refused
    rw [Credit.admit_of_not_admits hdenied] at refused
    obtain ⟨-, hlow⟩ := Bucket.spend_of_denied hone hdenied
    refine ⟨credit.spend limiter.rate limiter.burst t, hlow, ?_, ?_⟩
    · simpa [rateExhausted] using refused.symm
    -- the calls in between see the credit that the refused call leaves
    have hsplit : before ++ ⟨identity, t⟩ :: between = (before ++ [⟨identity, t⟩]) ++ between := by
      simp
    have hleft : (limiter.after (before ++ [⟨identity, t⟩])).credit.get identity =
        some (credit.spend limiter.rate limiter.burst t) := by
      rw [after_concat]
      show ((limiter.after before).admitCall identity t).2.credit.get identity = _
      rw [hset, Dict.get_set_self]
    obtain ⟨hafter, houtcomes⟩ := credit_after between hleft
    rw [houtcomes, Credit.countP_outcomes, after_rate, after_burst] at starved
    rw [after_rate, after_burst] at hafter
    refine ⟨_, by rw [hsplit, after_append, hafter], ?_⟩
    rw [Bucket.admits_after_denied hone starved, Bucket.spendAll_updatedAt, Bucket.spend_updatedAt,
      max_eq_left hupdated, max_eq_left]
    rw [foldl_max_le]
    exact ⟨hnow, fun x hx => hbetween x (mem_readingsOf hx)⟩

/-- The wait that a refused call is told is enough, and no shorter wait of whole seconds is, however
often the identity calls in between without being admitted. -/
theorem retry_after_exact (made : create identities perMinute burst start = .ok limiter)
    (identity : Text)
    (before between : List Attempt) (t now : Rat) {d : Nat}
    (rising : (start :: (before.map Attempt.now ++ t :: between.map Attempt.now ++ [now])).Pairwise
      (· ≤ ·))
    (refused : ((limiter.after before).admitCall identity t).1 = .error (rateExhausted d))
    (starved : ((limiter.after (before ++ [⟨identity, t⟩])).outcomesOf identity between).countP
      Except.isOk = 0) :
    0 < d ∧
    (t + d ≤ now →
      ((limiter.after (before ++ ⟨identity, t⟩ :: between)).admitCall identity now).1 = .ok ()) ∧
    ∀ d' : Nat, 0 < d' → d' < d → now = t + d' → ∃ wait,
      ((limiter.after (before ++ ⟨identity, t⟩ :: between)).admitCall identity now).1 =
        .error (rateExhausted wait) := by
  obtain ⟨hperMinute, -, hrate, -⟩ := create_eq_ok made
  have hpos : 0 < limiter.rate := by
    rw [hrate]
    positivity
  obtain ⟨low, hlow, rfl, left, hget, hadmits⟩ :=
    admits_after_refused made identity before between t now rising refused starved
  obtain ⟨houtcome, -⟩ := admit_of_credit now hget
  rw [after_rate, after_burst] at houtcome
  refine ⟨by omega, fun hwait => ?_, fun d' _ hshort hnow => ?_⟩
  · have henough := (wait_le_iff hpos hlow).mpr le_rfl
    have hmore : limiter.rate * ((max 1 ⌈(1 - low.tokens) / limiter.rate⌉).toNat : Rat) ≤
        limiter.rate * (now - t) := mul_le_mul_of_nonneg_left (by linarith) hpos.le
    rw [houtcome, Credit.admit_of_admits (hadmits.mpr (by linarith))]
  · have hnone : ¬left.admits limiter.rate limiter.burst now := by
      rw [hadmits, hnow, add_sub_cancel_left, wait_le_iff hpos hlow]
      exact not_le.mpr hshort
    rw [houtcome, Credit.admit_of_not_admits hnone]
    exact ⟨_, rfl⟩

/-- The third call at once is told to wait for two seconds; one more call after a second makes no
difference. -/
theorem retry_after_exact_burst : ∃ limiter, create ["a".toList] 30 2 0 = .ok limiter ∧
    ((limiter.after [⟨"a".toList, 0⟩, ⟨"a".toList, 0⟩, ⟨"a".toList, 0⟩, ⟨"a".toList, 1⟩]).admitCall
      "a".toList 2).1 = .ok () := by
  have made : create ["a".toList] 30 2 0 = .ok ⟨30 / 60, 2, Dict.empty.set "a".toList ⟨2, 0⟩⟩ := rfl
  have refused : ((IssuanceRateLimiter.after ⟨30 / 60, 2, Dict.empty.set "a".toList ⟨2, 0⟩⟩
      [⟨"a".toList, 0⟩, ⟨"a".toList, 0⟩]).admitCall "a".toList 0).1 = .error (rateExhausted 2) := by
    decide +kernel
  obtain ⟨-, hadmitted, -⟩ := retry_after_exact made "a".toList [⟨"a".toList, 0⟩, ⟨"a".toList, 0⟩]
    [⟨"a".toList, 1⟩] 0 2 (by decide +kernel) refused (by decide +kernel)
  exact ⟨_, made, hadmitted (by decide +kernel)⟩

end Windows

end AssetStore
