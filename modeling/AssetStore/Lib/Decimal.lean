import Mathlib
import AssetStore.Lib.Segments
import AssetStore.Lib.Trim

/-! Decimal integers as text: what is read back from what is written, and a reader that takes blanks
around a number, a sign, leading zeros and single underscores between digits. -/

namespace AssetStore.Lib

/-- Blanks around a number. -/
def isBlank (c : Char) : Bool := (9 ≤ c.toNat && c.toNat ≤ 13) || c == ' '

/-- Groups of digits with underscores between them, of at most `limit` digits. -/
def readDigits (limit : Nat) (l : List Char) : Option Nat :=
  let digits := (l.splitOn '_').flatten
  if [] ∈ l.splitOn '_' ∨ digits.all Char.isDigit = false ∨ limit < digits.length then none
  else some (Nat.ofDigitChars 10 digits 0)

/-- An integer with an optional sign and blanks around it. -/
def readInt (limit : Nat) (l : List Char) : Option Int :=
  match strip isBlank l with
  | '+' :: rest => (readDigits limit rest).map Int.ofNat
  | '-' :: rest => (readDigits limit rest).map Int.negOfNat
  | rest => (readDigits limit rest).map Int.ofNat

variable {limit n : Nat} {l : List Char} {v : Int}

theorem ofDigitChars_lt (h : ∀ c ∈ l, c.isDigit = true) :
    Nat.ofDigitChars 10 l 0 < 10 ^ l.length := by
  induction l with
  | nil => simp
  | cons c rest ih =>
    have hdigit : c.toNat - 48 ≤ 9 := by
      have := h c List.mem_cons_self
      simp only [Char.isDigit, Bool.and_eq_true, decide_eq_true_eq] at this
      have hle : c.toNat ≤ 57 := this.2
      omega
    have hrest := ih fun d hd => h d (List.mem_cons_of_mem _ hd)
    rw [Nat.ofDigitChars_cons, Nat.ofDigitChars_eq_ofDigitChars_zero, List.length_cons,
      Nat.pow_succ]
    have hscaled : 10 ^ rest.length * (10 * 0 + (c.toNat - '0'.toNat)) ≤ 10 ^ rest.length * 9 :=
      Nat.mul_le_mul_left _ (by simpa using hdigit)
    omega

/-- What is read has no more digits than the limit. -/
theorem readDigits_lt (h : readDigits limit l = some n) : n < 10 ^ limit := by
  simp only [readDigits, ite_eq_iff, reduceCtorEq, and_false, Option.some.injEq, false_or, not_or,
    not_lt, Bool.not_eq_false] at h
  obtain ⟨⟨-, hdigits, hlimit⟩, rfl⟩ := h
  calc Nat.ofDigitChars 10 (l.splitOn '_').flatten 0 < 10 ^ (l.splitOn '_').flatten.length :=
        ofDigitChars_lt (List.all_eq_true.mp hdigits)
    _ ≤ 10 ^ limit := Nat.pow_le_pow_right (by decide) hlimit

theorem readInt_lt (h : readInt limit l = some v) : v.natAbs < 10 ^ limit := by
  unfold readInt at h
  split at h
  all_goals
    obtain ⟨n, hn, rfl⟩ := Option.map_eq_some_iff.mp h
    have hlt := readDigits_lt hn
    first
      | exact hlt
      | rwa [Int.natAbs_negOfNat]

/-- The digits of a number are read back. -/
theorem readDigits_toDigits (hpos : 0 < limit) (h : n < 10 ^ limit) :
    readDigits limit (Nat.toDigits 10 n) = some n := by
  have hsplit : (Nat.toDigits 10 n).splitOn '_' = [Nat.toDigits 10 n] :=
    List.splitOn_eq_singleton Nat.underscore_not_in_toDigits
  have hdigits : ∀ c ∈ Nat.toDigits 10 n, c.isDigit = true := fun c hc =>
    Nat.isDigit_of_mem_toDigits (by decide) (by decide) hc
  have hlength : (Nat.toDigits 10 n).length ≤ limit :=
    (Nat.length_toDigits_le_iff (by decide) hpos).mpr h
  simp only [readDigits, hsplit, List.flatten_singleton]
  rw [if_neg, Nat.ofDigitChars_ten_toDigits]
  rintro (hempty | hother | hlong)
  · exact Nat.toDigits_ne_nil (List.mem_singleton.mp hempty).symm
  · rw [List.all_eq_true.mpr hdigits] at hother
    cases hother
  · omega

theorem isDigit_not_blank {c : Char} (h : c.isDigit = true) : isBlank c = false := by
  simp only [Char.isDigit, Bool.and_eq_true, decide_eq_true_eq] at h
  have hlow : 48 ≤ c.toNat := h.1
  have hspace : c ≠ ' ' := fun heq => absurd (heq ▸ hlow) (by decide)
  simp only [isBlank, Bool.or_eq_false_iff, Bool.and_eq_false_iff, decide_eq_false_iff_not,
    beq_eq_false_iff_ne]
  exact ⟨.inr (by omega), hspace⟩

/-- Text without blanks is not stripped. -/
theorem strip_eq_self (h : ∀ c ∈ l, isBlank c = false) : strip isBlank l = l := by
  rw [strip, dropWhile_eq_self_of_forall h, rdropWhile_eq_self_of_forall h]

theorem toList_ofNat (n : Nat) : (toString (Int.ofNat n)).toList = Nat.toDigits 10 n :=
  Nat.toList_repr

theorem toList_negSucc (n : Nat) :
    (toString (Int.negSucc n)).toList = '-' :: Nat.toDigits 10 (n + 1) := by
  show ("-" ++ (n + 1).repr).toList = _
  simp

/-- A written number is a sign and digits. -/
theorem mem_toString {c : Char} (h : c ∈ (toString v).toList) : c = '-' ∨ c.isDigit = true := by
  have hdigit : ∀ n, c ∈ Nat.toDigits 10 n → c.isDigit = true := fun n hc =>
    Nat.isDigit_of_mem_toDigits (by decide) (by decide) hc
  cases v with
  | ofNat n =>
    rw [toList_ofNat] at h
    exact .inr (hdigit _ h)
  | negSucc n =>
    rw [toList_negSucc] at h
    exact (List.mem_cons.mp h).imp_right (hdigit _)

theorem toString_ne_nil : (toString v).toList ≠ [] := by
  cases v with
  | ofNat n =>
    rw [toList_ofNat]
    exact Nat.toDigits_ne_nil
  | negSucc n =>
    rw [toList_negSucc]
    exact List.cons_ne_nil _ _

/-- A number that is written is read back. -/
theorem readInt_toString (hpos : 0 < limit) (h : v.natAbs < 10 ^ limit) :
    readInt limit (toString v).toList = some v := by
  have hblank : ∀ n, ∀ c ∈ Nat.toDigits 10 n, isBlank c = false := fun n c hc =>
    isDigit_not_blank (Nat.isDigit_of_mem_toDigits (by decide) (by decide) hc)
  cases v with
  | ofNat n =>
    rw [toList_ofNat, readInt, strip_eq_self (hblank n)]
    have hdigit : ∀ c rest, Nat.toDigits 10 n = c :: rest → c.isDigit = true := fun c rest heq =>
      Nat.isDigit_of_mem_toDigits (by decide) (by decide) (heq ▸ List.mem_cons_self)
    split
    · rename_i rest heq
      exact absurd (hdigit _ _ heq) (by decide)
    · rename_i rest heq
      exact absurd (hdigit _ _ heq) (by decide)
    · rw [readDigits_toDigits hpos (show n < 10 ^ limit from h)]
      rfl
  | negSucc n =>
    rw [toList_negSucc, readInt, strip_eq_self]
    · show (readDigits limit (Nat.toDigits 10 (n + 1))).map Int.negOfNat = _
      rw [readDigits_toDigits hpos (by simpa using h)]
      rfl
    · intro c hc
      rcases List.mem_cons.mp hc with rfl | hc
      · decide
      · exact hblank _ c hc

end AssetStore.Lib
