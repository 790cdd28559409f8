import Mathlib.Algebra.Order.Group.Nat
import DocScript.Binary64

/-! # Rounding keeps the order

A number is rounded to a word. Words of greater numbers are not smaller, within a binade because the
nearest multiples are in order, and from one binade to the next because the words of the second
follow those of the first. So the doubles nearest to integers are in the order of the integers,
though different integers may share one; up to `2 ^ 53` none do.
-/

namespace DocScript

namespace Binary64

/-! ### Multiples of a power of two -/

theorem roundShift_eq (n k : Nat) :
    roundShift n k =
      if 2 * (n % 2 ^ k) < 2 ^ k then n / 2 ^ k
      else if 2 * (n % 2 ^ k) = 2 ^ k then n / 2 ^ k + n / 2 ^ k % 2
      else n / 2 ^ k + 1 := by
  have hrest : n - n / 2 ^ k * 2 ^ k = n % 2 ^ k := by
    have := Nat.div_add_mod' n (2 ^ k)
    omega
  unfold roundShift
  simp only [Nat.shiftRight_eq_div_pow, Nat.shiftLeft_eq, Nat.one_mul, hrest]

theorem div_le_roundShift (n k : Nat) : n / 2 ^ k ≤ roundShift n k := by
  rw [roundShift_eq]
  split_ifs <;> omega

theorem roundShift_le (n k : Nat) : roundShift n k ≤ n / 2 ^ k + 1 := by
  rw [roundShift_eq]
  split_ifs <;> omega

/-- A multiple of the power stays as it is. -/
theorem roundShift_of_dvd {n k : Nat} (h : 2 ^ k ∣ n) : roundShift n k = n / 2 ^ k := by
  rw [roundShift_eq, Nat.mod_eq_zero_of_dvd h, if_pos (show 2 * 0 < 2 ^ k from Nat.two_pow_pos k)]

theorem roundShift_mono {m n : Nat} (h : m ≤ n) (k : Nat) : roundShift m k ≤ roundShift n k := by
  rcases Nat.lt_or_eq_of_le (Nat.div_le_div_right (c := 2 ^ k) h) with hlt | heq
  · exact (roundShift_le m k).trans (Nat.le_trans hlt (div_le_roundShift n k))
  · -- Between the same two multiples what is left over decides.
    have hrest : m % 2 ^ k ≤ n % 2 ^ k := by
      have hm := Nat.div_add_mod m (2 ^ k)
      have hn := Nat.div_add_mod n (2 ^ k)
      rw [heq] at hm
      omega
    rw [roundShift_eq, roundShift_eq, heq]
    split_ifs <;> omega

/-! ### Words -/

/-- The places that are rounded away. -/
def dropped (fraction base n : Nat) : Nat := max (n.log2 - fraction) base

theorem pack_eq (fraction base n : Nat) :
    pack fraction base n = (dropped fraction base n - base) * 2 ^ fraction +
      roundShift n (dropped fraction base n) := by
  unfold pack dropped
  simp only [Nat.shiftLeft_eq]

variable {fraction base m n : Nat}

theorem dropped_mono (fraction base : Nat) (h : m ≤ n) :
    dropped fraction base m ≤ dropped fraction base n := by
  have hlog : m.log2 ≤ n.log2 := by
    by_cases hzero : m = 0
    · simp [hzero]
    · exact (Nat.le_log2 (by omega)).2 ((Nat.log2_self_le hzero).trans h)
  unfold dropped
  omega

/-- What is kept fits in the significand. -/
theorem div_dropped_lt (fraction base n : Nat) :
    n / 2 ^ dropped fraction base n < 2 ^ (fraction + 1) := by
  rw [Nat.div_lt_iff_lt_mul (Nat.two_pow_pos _), ← Nat.pow_add]
  refine Nat.lt_log2_self.trans_le (Nat.pow_le_pow_right Nat.two_pos ?_)
  unfold dropped
  omega

/-- If more is dropped than must be, the significand is full. -/
theorem le_div_dropped (h : base < dropped fraction base n) :
    2 ^ fraction ≤ n / 2 ^ dropped fraction base n := by
  have hdropped : dropped fraction base n + fraction = n.log2 := by
    unfold dropped at h ⊢
    omega
  have hzero : n ≠ 0 := by
    rintro rfl
    simp [dropped] at h
  rw [Nat.le_div_iff_mul_le (Nat.two_pow_pos _), ← Nat.pow_add, Nat.add_comm, hdropped]
  exact Nat.log2_self_le hzero

/-- The words of a binade end where those of the next one begin. -/
theorem pack_le (fraction base n : Nat) :
    pack fraction base n ≤ (dropped fraction base n - base + 2) * 2 ^ fraction := by
  have hround := roundShift_le n (dropped fraction base n)
  have hdiv := div_dropped_lt fraction base n
  rw [pack_eq, Nat.add_mul]
  omega

theorem le_pack (h : base < dropped fraction base n) :
    (dropped fraction base n - base + 1) * 2 ^ fraction ≤ pack fraction base n := by
  have hround := div_le_roundShift n (dropped fraction base n)
  have hdiv := le_div_dropped h
  rw [pack_eq, Nat.add_mul, Nat.one_mul]
  omega

/-- A greater number has no smaller word. -/
theorem pack_mono (fraction base : Nat) (h : m ≤ n) :
    pack fraction base m ≤ pack fraction base n := by
  rcases Nat.lt_or_eq_of_le (dropped_mono fraction base h) with hlt | heq
  · have hbase : base ≤ dropped fraction base m := Nat.le_max_right ..
    calc pack fraction base m ≤ (dropped fraction base m - base + 2) * 2 ^ fraction := pack_le ..
      _ ≤ (dropped fraction base n - base + 1) * 2 ^ fraction :=
          Nat.mul_le_mul_right _ (by omega)
      _ ≤ pack fraction base n := le_pack (hbase.trans_lt hlt)
  · rw [pack_eq, pack_eq, heq]
    exact Nat.add_le_add_left (roundShift_mono h _) _

/-- Nothing but zeros is rounded away. -/
def IsExact (fraction base n : Nat) : Prop := 2 ^ dropped fraction base n ∣ n

/-- Numbers that are words themselves have different words. -/
theorem pack_strictMono (h : m < n) (hm : IsExact fraction base m) (hn : IsExact fraction base n) :
    pack fraction base m < pack fraction base n := by
  rcases Nat.lt_or_eq_of_le (dropped_mono fraction base h.le) with hlt | heq
  · have hbase : base ≤ dropped fraction base m := Nat.le_max_right ..
    have hdiv := div_dropped_lt fraction base m
    calc pack fraction base m = (dropped fraction base m - base) * 2 ^ fraction +
          m / 2 ^ dropped fraction base m := by rw [pack_eq, roundShift_of_dvd hm]
      _ < (dropped fraction base m - base + 2) * 2 ^ fraction := by
          rw [Nat.add_mul]
          omega
      _ ≤ (dropped fraction base n - base + 1) * 2 ^ fraction :=
          Nat.mul_le_mul_right _ (by omega)
      _ ≤ pack fraction base n := le_pack (hbase.trans_lt hlt)
  · unfold IsExact at hm hn
    rw [pack_eq, pack_eq, roundShift_of_dvd hm, roundShift_of_dvd hn, heq]
    rw [heq] at hm
    exact Nat.add_lt_add_left (Nat.div_lt_div_of_lt_of_dvd hn h) _

/-! ### Integers -/

theorem toNat_ofMagnitude (negative : Bool) (magnitude : Nat) :
    (ofMagnitude negative magnitude).bits.toNat =
      (if negative then 2 ^ 63 else 0) + magnitude % 2 ^ 63 := by
  have hbits : (ofMagnitude negative magnitude).bits.toNat =
      ((if negative then 2 ^ 63 else 0) + magnitude % 2 ^ 63) % 2 ^ 64 := UInt64.toNat_ofNat'
  rw [hbits, Nat.mod_eq_of_lt]
  split_ifs <;> omega

theorem magnitude_ofMagnitude {magnitude : Nat} (negative : Bool) (h : magnitude < 2 ^ 63) :
    (ofMagnitude negative magnitude).magnitude = magnitude := by
  unfold Binary64.magnitude
  rw [toNat_ofMagnitude]
  split_ifs <;> omega

theorem isNegative_ofMagnitude (negative : Bool) (magnitude : Nat) :
    (ofMagnitude negative magnitude).isNegative = negative := by
  unfold isNegative
  rw [toNat_ofMagnitude]
  cases negative <;> simp only [if_true, Bool.false_eq_true, if_false, decide_eq_true_eq,
    decide_eq_false_iff_not] <;> omega

/-- The magnitude of the double nearest to a natural number. -/
def wordOf (n : Nat) : Nat := min (pack 52 0 (n <<< oneExponent)) infiniteMagnitude

theorem wordOf_lt (n : Nat) : wordOf n < 2 ^ 63 :=
  (Nat.min_le_right _ _).trans_lt (by decide)

theorem ofInt_eq (k : Int) : ofInt k = ofMagnitude (decide (k < 0)) (wordOf k.natAbs) := rfl

theorem isNaN_ofInt (k : Int) : (ofInt k).isNaN = false := by
  unfold isNaN
  rw [ofInt_eq, magnitude_ofMagnitude _ (wordOf_lt _)]
  exact decide_eq_false (Nat.not_lt.2 (Nat.min_le_right _ _))

theorem position_ofInt (k : Int) :
    (ofInt k).position = if k < 0 then -(wordOf k.natAbs : Int) else wordOf k.natAbs := by
  unfold position
  rw [ofInt_eq, isNegative_ofMagnitude, magnitude_ofMagnitude _ (wordOf_lt _)]
  simp only [decide_eq_true_eq]

theorem wordOf_mono {m n : Nat} (h : m ≤ n) : wordOf m ≤ wordOf n := by
  have hunits : m <<< oneExponent ≤ n <<< oneExponent := by
    rw [Nat.shiftLeft_eq, Nat.shiftLeft_eq]
    exact Nat.mul_le_mul_right _ h
  have := pack_mono 52 0 hunits
  unfold wordOf
  omega

/-- Rounding keeps the order of integers. -/
theorem position_ofInt_mono {a b : Int} (h : a ≤ b) : (ofInt a).position ≤ (ofInt b).position := by
  rw [position_ofInt, position_ofInt]
  by_cases hb : b < 0
  · have := wordOf_mono (show b.natAbs ≤ a.natAbs by omega)
    split_ifs <;> omega
  · by_cases ha : a < 0
    · split_ifs
      omega
    · have := wordOf_mono (show a.natAbs ≤ b.natAbs by omega)
      split_ifs
      omega

theorem lt_ofInt_iff (a b : Int) :
    lt (ofInt a) (ofInt b) = true ↔ a < b ∧ (ofInt a).numEq (ofInt b) = false := by
  have hab := @position_ofInt_mono a b
  have hba := @position_ofInt_mono b a
  simp only [lt, numEq, isNaN_ofInt, Bool.not_false, Bool.true_and, decide_eq_true_eq,
    beq_eq_false_iff_ne]
  omega

theorem numEq_comm (x y : Binary64) : x.numEq y = y.numEq x := by
  unfold numEq
  rw [Bool.and_comm (!x.isNaN), BEq.comm (a := x.position)]

/-! ### Integers that are doubles themselves -/

theorem dropped_shiftLeft_le {n bits : Nat} (places : Nat) (h : n < 2 ^ bits) :
    dropped 52 0 (n <<< places) ≤ places + bits - 53 := by
  unfold dropped
  by_cases hzero : n <<< places = 0
  · simp [hzero]
  · have hlog : (n <<< places).log2 < places + bits := by
      rw [Nat.log2_lt hzero, Nat.shiftLeft_eq, Nat.pow_add, Nat.mul_comm]
      exact Nat.mul_lt_mul_of_pos_left h (Nat.two_pow_pos _)
    omega

theorem isExact_shiftLeft {n : Nat} (places : Nat) (h : n ≤ 2 ^ 53) :
    IsExact 52 0 (n <<< places) := by
  unfold IsExact
  rw [Nat.shiftLeft_eq]
  rcases Nat.lt_or_eq_of_le h with hlt | rfl
  · have hdropped := dropped_shiftLeft_le places hlt
    rw [Nat.shiftLeft_eq] at hdropped
    exact Nat.dvd_trans (Nat.pow_dvd_pow 2 (by omega)) (Nat.dvd_mul_left ..)
  · -- The bound itself is a power of two.
    rw [← Nat.pow_add]
    refine Nat.pow_dvd_pow 2 ?_
    unfold dropped
    rw [Nat.log2_two_pow]
    omega

/-- Up to `2 ^ 53` no two numbers share a double. -/
theorem wordOf_strictMono {m n : Nat} (h : m < n) (hn : n ≤ 2 ^ 53) : wordOf m < wordOf n := by
  have hunits : m <<< oneExponent < n <<< oneExponent := by
    rw [Nat.shiftLeft_eq, Nat.shiftLeft_eq]
    exact Nat.mul_lt_mul_of_pos_right h (Nat.two_pow_pos _)
  have hless := pack_strictMono hunits (isExact_shiftLeft oneExponent (h.le.trans hn))
    (isExact_shiftLeft oneExponent hn)
  have hfinite : pack 52 0 (n <<< oneExponent) ≤ infiniteMagnitude := by
    have hdropped := dropped_shiftLeft_le oneExponent (Nat.lt_succ_of_le hn |>.trans_le
      (show 2 ^ 53 + 1 ≤ 2 ^ 54 by decide))
    refine (pack_le ..).trans (Nat.mul_le_mul_right _ ?_)
    unfold oneExponent at hdropped ⊢
    omega
  unfold wordOf
  omega

theorem position_ofInt_strictMono {a b : Int} (ha : a.natAbs ≤ 2 ^ 53) (hb : b.natAbs ≤ 2 ^ 53)
    (h : a < b) : (ofInt a).position < (ofInt b).position := by
  rw [position_ofInt, position_ofInt]
  by_cases hbneg : b < 0
  · have := wordOf_strictMono (show b.natAbs < a.natAbs by omega) ha
    split_ifs <;> omega
  · by_cases haneg : a < 0
    · have := wordOf_strictMono (show 0 < a.natAbs by omega) ha
      split_ifs
      omega
    · have := wordOf_strictMono (show a.natAbs < b.natAbs by omega) hb
      split_ifs
      omega

/-- Up to `2 ^ 53` in either direction the nearest doubles tell integers apart. -/
theorem numEq_ofInt {a b : Int} (ha : a.natAbs ≤ 2 ^ 53) (hb : b.natAbs ≤ 2 ^ 53) (hne : a ≠ b) :
    (ofInt a).numEq (ofInt b) = false := by
  have hplaces : (ofInt a).position ≠ (ofInt b).position := by
    rcases Int.lt_or_gt_of_ne hne with hlt | hgt
    · exact Int.ne_of_lt (position_ofInt_strictMono ha hb hlt)
    · exact (Int.ne_of_lt (position_ofInt_strictMono hb ha hgt)).symm
  simpa only [numEq, isNaN_ofInt, Bool.not_false, Bool.true_and, beq_eq_false_iff_ne]

end Binary64

end DocScript
