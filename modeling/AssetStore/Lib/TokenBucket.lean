import Mathlib.Algebra.Order.Field.Basic
import Mathlib.Algebra.Order.Group.MinMax
import Mathlib.Tactic.Linarith
import Mathlib.Tactic.Ring

/-! Token buckets. A bucket gains `rate` tokens per unit of time up to `burst`, and loses one with
each attempt that it admits. The clock may go back; time that has been counted is not counted
again. -/

namespace AssetStore.Lib

variable {K : Type} [Field K] [LinearOrder K]

theorem foldl_max_le {K : Type} [LinearOrder K] {readings : List K} {start bound : K} :
    readings.foldl max start ≤ bound ↔ start ≤ bound ∧ ∀ now ∈ readings, now ≤ bound := by
  induction readings generalizing start with
  | nil => simp
  | cons now rest ih => simp [ih, and_assoc]

theorem le_foldl_max {K : Type} [LinearOrder K] (start : K) (readings : List K) :
    start ≤ readings.foldl max start := (foldl_max_le.mp le_rfl).1

/-- The tokens of a bucket and the latest instant at which it was looked at. -/
structure Bucket (K : Type) where
  tokens : K
  updatedAt : K

namespace Bucket

/-- The bucket as it is at the reading `now`. -/
def refill (rate burst : K) (b : Bucket K) (now : K) : Bucket K where
  tokens := min burst (b.tokens + max 0 (now - b.updatedAt) * rate)
  updatedAt := max now b.updatedAt

/-- An attempt at the reading `now` is admitted when a whole token is there. -/
def admits (rate burst : K) (b : Bucket K) (now : K) : Prop := 1 ≤ (b.refill rate burst now).tokens

instance (rate burst : K) (b : Bucket K) (now : K) : Decidable (b.admits rate burst now) :=
  inferInstanceAs (Decidable (1 ≤ (b.refill rate burst now).tokens))

/-- The bucket after an attempt. -/
def spend (rate burst : K) (b : Bucket K) (now : K) : Bucket K :=
  if b.admits rate burst now then
    { b.refill rate burst now with tokens := (b.refill rate burst now).tokens - 1 }
  else b.refill rate burst now

/-- The bucket after attempts at some readings. -/
def spendAll (rate burst : K) (b : Bucket K) (readings : List K) : Bucket K :=
  readings.foldl (spend rate burst) b

@[simp] theorem spendAll_nil (rate burst : K) (b : Bucket K) : b.spendAll rate burst [] = b := rfl

@[simp] theorem spendAll_cons (rate burst : K) (b : Bucket K) (now : K) (rest : List K) :
    b.spendAll rate burst (now :: rest) = (b.spend rate burst now).spendAll rate burst rest := rfl

/-- How many of the attempts are admitted. -/
def admitted (rate burst : K) : Bucket K → List K → Nat
  | _, [] => 0
  | b, now :: rest =>
    (if b.admits rate burst now then 1 else 0) + admitted rate burst (b.spend rate burst now) rest

/-- What a bucket holds is neither a debt nor more than `burst`. -/
structure Bounded (burst : K) (b : Bucket K) : Prop where
  nonneg : 0 ≤ b.tokens
  le_burst : b.tokens ≤ burst

variable {rate burst now : K} {b : Bucket K} {readings : List K}

theorem spend_of_admits (h : b.admits rate burst now) : b.spend rate burst now =
    { b.refill rate burst now with tokens := (b.refill rate burst now).tokens - 1 } := if_pos h

theorem spend_of_not_admits (h : ¬b.admits rate burst now) :
    b.spend rate burst now = b.refill rate burst now := if_neg h

@[simp] theorem spend_updatedAt : (b.spend rate burst now).updatedAt = max now b.updatedAt := by
  unfold spend
  split <;> rfl

/-- The latest instant is the running maximum of the readings. -/
theorem spendAll_updatedAt :
    (b.spendAll rate burst readings).updatedAt = readings.foldl max b.updatedAt := by
  induction readings generalizing b with
  | nil => rfl
  | cons now rest ih =>
    rw [spendAll_cons, ih, spend_updatedAt, max_comm, List.foldl_cons]

section Bounds

variable [IsStrictOrderedRing K]

/-- The time that a look at the bucket counts. -/
theorem elapsed_eq (b : Bucket K) (now : K) :
    max 0 (now - b.updatedAt) = max now b.updatedAt - b.updatedAt := by
  rw [max_comm now, ← max_sub_sub_right, sub_self]

theorem Bounded.refill (h : Bounded burst b) (hrate : 0 ≤ rate) :
    Bounded burst (b.refill rate burst now) where
  nonneg := by
    have hgain : 0 ≤ max 0 (now - b.updatedAt) * rate := mul_nonneg (le_max_left _ _) hrate
    exact le_min (h.nonneg.trans h.le_burst) (add_nonneg h.nonneg hgain)
  le_burst := min_le_left _ _

theorem Bounded.spend (h : Bounded burst b) (hrate : 0 ≤ rate) :
    Bounded burst (b.spend rate burst now) := by
  have hfull : Bounded burst (b.refill rate burst now) := h.refill hrate
  by_cases hadmits : b.admits rate burst now
  · rw [spend_of_admits hadmits]
    exact ⟨sub_nonneg.mpr hadmits, (sub_le_self _ zero_le_one).trans hfull.le_burst⟩
  · rw [spend_of_not_admits hadmits]
    exact hfull

theorem Bounded.spendAll (h : Bounded burst b) (hrate : 0 ≤ rate) :
    Bounded burst (b.spendAll rate burst readings) := by
  induction readings generalizing b with
  | nil => exact h
  | cons now rest ih => exact ih (h.spend hrate)

/-- What an attempt takes out of the bucket was there, or has accrued. -/
theorem spend_cost :
    (b.spend rate burst now).tokens + ((if b.admits rate burst now then 1 else 0 : Nat) : K) ≤
      b.tokens + rate * ((b.spend rate burst now).updatedAt - b.updatedAt) := by
  have hgain : (b.refill rate burst now).tokens ≤
      b.tokens + rate * ((b.spend rate burst now).updatedAt - b.updatedAt) := by
    rw [spend_updatedAt, ← elapsed_eq, mul_comm rate]
    exact min_le_right _ _
  by_cases hadmits : b.admits rate burst now
  · rw [spend_of_admits hadmits] at hgain ⊢
    simpa [hadmits] using hgain
  · rw [spend_of_not_admits hadmits] at hgain ⊢
    simpa [hadmits] using hgain

theorem spendAll_cost :
    (b.spendAll rate burst readings).tokens + (admitted rate burst b readings : K) ≤
      b.tokens + rate * ((b.spendAll rate burst readings).updatedAt - b.updatedAt) := by
  induction readings generalizing b with
  | nil => simp [spendAll, admitted]
  | cons now rest ih =>
    have hfirst : (b.spend rate burst now).tokens +
        ((if b.admits rate burst now then 1 else 0 : Nat) : K) ≤
        b.tokens + rate * ((b.spend rate burst now).updatedAt - b.updatedAt) := spend_cost
    have hrest : ((b.spend rate burst now).spendAll rate burst rest).tokens +
        (admitted rate burst (b.spend rate burst now) rest : K) ≤ (b.spend rate burst now).tokens +
          rate * (((b.spend rate burst now).spendAll rate burst rest).updatedAt -
            (b.spend rate burst now).updatedAt) := ih
    rw [spendAll_cons, admitted, Nat.cast_add]
    linarith

/-- In any window, no more attempts are admitted than `burst` and what accrues in the window. -/
theorem admitted_le (readings : List K) (h : Bounded burst b) (hrate : 0 ≤ rate) :
    (admitted rate burst b readings : K) ≤
      burst + rate * ((b.spendAll rate burst readings).updatedAt - b.updatedAt) := by
  have hcost : (b.spendAll rate burst readings).tokens + (admitted rate burst b readings : K) ≤
      b.tokens + rate * ((b.spendAll rate burst readings).updatedAt - b.updatedAt) := spendAll_cost
  have hleft : 0 ≤ (b.spendAll rate burst readings).tokens := (h.spendAll hrate).nonneg
  linarith [h.le_burst]

/-! ### Waiting for a token -/

/-- An attempt that is not admitted leaves everything that has accrued. -/
theorem spend_of_denied (hburst : 1 ≤ burst) (h : ¬b.admits rate burst now) :
    (b.spend rate burst now).tokens = b.tokens + rate *
      ((b.spend rate burst now).updatedAt - b.updatedAt) ∧
      (b.spend rate burst now).tokens < 1 := by
  have hlow : (b.refill rate burst now).tokens < 1 := not_le.mp h
  have htokens : (b.spend rate burst now).tokens = (b.refill rate burst now).tokens := by
    rw [spend_of_not_admits h]
  refine ⟨?_, htokens ▸ hlow⟩
  rw [htokens, spend_updatedAt, ← elapsed_eq, mul_comm rate]
  apply min_eq_right
  exact le_of_not_ge fun hfull => absurd hlow (not_lt.mpr (hburst.trans (le_min le_rfl hfull)))

/-- However the waiting time is split by attempts that are not admitted, nothing of it is lost. -/
theorem spendAll_of_denied (hburst : 1 ≤ burst) (h : admitted rate burst b readings = 0) :
    (b.spendAll rate burst readings).tokens =
      b.tokens + rate * ((b.spendAll rate burst readings).updatedAt - b.updatedAt) := by
  induction readings generalizing b with
  | nil => simp [spendAll]
  | cons now rest ih =>
    simp only [admitted, Nat.add_eq_zero_iff, ite_eq_right_iff, one_ne_zero, imp_false] at h
    obtain ⟨hnow, hrest⟩ := h
    obtain ⟨hfirst, -⟩ := spend_of_denied hburst hnow
    rw [spendAll_cons, ih hrest, hfirst]
    ring

/-- After attempts that are not admitted, the next one is admitted when the time since the bucket
was looked at first has brought a whole token. -/
theorem admits_after_denied (hburst : 1 ≤ burst) (h : admitted rate burst b readings = 0) :
    (b.spendAll rate burst readings).admits rate burst now ↔
      1 ≤ b.tokens + rate * (max now (b.spendAll rate burst readings).updatedAt - b.updatedAt) := by
  unfold admits refill
  rw [le_min_iff, elapsed_eq, spendAll_of_denied hburst h]
  constructor
  · rintro ⟨-, henough⟩
    linarith
  · intro henough
    exact ⟨hburst, by linarith⟩

end Bounds

end Bucket

end AssetStore.Lib
