import Mathlib.Tactic

/-! Restoring division in one shift register. With `n` bits of the dividend to come and `k` bits of
    the quotient found, the register of `2 * (k + n)` bits shows

        │ remainder │ next n bits of the dividend │ 0 │ k bits of the quotient │

    A step compares the divisor with the high half (the remainder with one more bit of the
    dividend), subtracts it if it goes, and shifts the outcome in from the right. -/

namespace DsdOrsoc.Schemes

/-- The register after one step of a division by `y` at width `w`. -/
def divNext (w y p : ℕ) : ℕ :=
  if y ≤ p / 2 ^ w then (p / 2 ^ w - y) * 2 ^ (w + 1) + p % 2 ^ w * 2 + 1 else p * 2

/-- INVARIANT: what the register shows of the division of `x` by `y`. -/
structure Dividing (x y k n p q r : ℕ) : Prop where
  split : x / 2 ^ n = q * y + r
  rem : r < y
  quot : q < 2 ^ k
  reg : p = r * 2 ^ (k + n + 1) + x % 2 ^ n * 2 ^ (k + 1) + q

variable {x y k n p q r w : ℕ}

theorem dividing_start (hx : x < 2 ^ n) (hy : 0 < y) : Dividing x y 0 n (2 * x) 0 0 where
  split := by rw [Nat.div_eq_of_lt hx]; omega
  rem := hy
  quot := by simp
  reg := by rw [Nat.mod_eq_of_lt hx]; omega

/-- The next bit of the dividend. -/
def nextBit (x n : ℕ) : ℕ := x / 2 ^ n % 2

theorem nextBit_lt (x n : ℕ) : nextBit x n < 2 := Nat.mod_lt _ two_pos

theorem div_pow_eq (x n : ℕ) : x / 2 ^ n = 2 * (x / 2 ^ (n + 1)) + nextBit x n := by
  have h : x / 2 ^ (n + 1) = x / 2 ^ n / 2 := by rw [pow_succ, Nat.div_div_eq_div_mul]
  rw [h, nextBit]
  omega

theorem mod_pow_eq (x n : ℕ) : x % 2 ^ (n + 1) = nextBit x n * 2 ^ n + x % 2 ^ n := by
  rw [Nat.mod_pow_succ, nextBit]
  ring

namespace Dividing

/-- The low half holds what is left of the dividend and the quotient so far. -/
theorem low_lt (h : Dividing x y k (n + 1) p q r) :
    x % 2 ^ n * 2 ^ (k + 1) + q < 2 ^ (k + n + 1) := by
  have hm : x % 2 ^ n + 1 ≤ 2 ^ n := Nat.mod_lt _ (by positivity)
  have hq := h.quot
  calc x % 2 ^ n * 2 ^ (k + 1) + q < x % 2 ^ n * 2 ^ (k + 1) + 2 ^ (k + 1) := by
        rw [pow_succ 2 k]; omega
    _ = (x % 2 ^ n + 1) * 2 ^ (k + 1) := by ring
    _ ≤ 2 ^ n * 2 ^ (k + 1) := Nat.mul_le_mul_right _ hm
    _ = 2 ^ (k + n + 1) := by rw [← pow_add]; congr 1; omega

theorem reg_eq (h : Dividing x y k (n + 1) p q r) :
    p = (2 * r + nextBit x n) * 2 ^ (k + n + 1) + (x % 2 ^ n * 2 ^ (k + 1) + q) := by
  rw [h.reg, mod_pow_eq]
  ring

/-- The high half is the remainder with one more bit. -/
theorem high (h : Dividing x y k (n + 1) p q r) : p / 2 ^ (k + n + 1) = 2 * r + nextBit x n := by
  rw [h.reg_eq, mul_comm, Nat.mul_add_div (by positivity), Nat.div_eq_of_lt h.low_lt, add_zero]

theorem low (h : Dividing x y k (n + 1) p q r) :
    p % 2 ^ (k + n + 1) = x % 2 ^ n * 2 ^ (k + 1) + q := by
  rw [h.reg_eq, mul_comm, Nat.mul_add_mod, Nat.mod_eq_of_lt h.low_lt]

theorem high_lt (h : Dividing x y k (n + 1) p q r) : p / 2 ^ (k + n + 1) < 2 * y := by
  have := h.rem
  have := nextBit_lt x n
  rw [h.high]
  omega

theorem high_le (h : Dividing x y k (n + 1) p q r) : p / 2 ^ (k + n + 1) ≤ x / 2 ^ n := by
  have := h.split
  rw [h.high, div_pow_eq x n]
  nlinarith [Nat.zero_le (q * y)]

/-- Before the divisor goes for the first time the high half is what has come of the dividend. -/
theorem high_eq (h : Dividing x y k (n + 1) p q r) (hx : x / 2 ^ (n + 1) < y) :
    p / 2 ^ (k + n + 1) = x / 2 ^ n := by
  have hq : q = 0 := by
    by_contra hq
    have := Nat.le_mul_of_pos_left y (Nat.pos_of_ne_zero hq)
    have := h.split
    omega
  have hs := h.split
  rw [hq, zero_mul, zero_add] at hs
  rw [h.high, div_pow_eq x n, hs]

/-- STEP. -/
theorem next (h : Dividing x y k (n + 1) p q r) :
    ∃ q' r', Dividing x y (k + 1) n (divNext (k + n + 1) y p) q' r' := by
  have hs : x / 2 ^ n = 2 * (q * y + r) + nextBit x n := by rw [div_pow_eq, h.split]
  have hb := nextBit_lt x n
  have hr := h.rem
  have hq : 2 * q + 1 < 2 ^ (k + 1) := by
    have := h.quot
    rw [pow_succ]
    omega
  rw [divNext, h.high, h.low]
  split
  · next hle =>
    refine ⟨2 * q + 1, 2 * r + nextBit x n - y, ?_, by omega, hq, by ring_nf⟩
    rw [hs]
    have : (2 * q + 1) * y = 2 * (q * y) + y := by ring
    omega
  · next hlt =>
    refine ⟨2 * q, 2 * r + nextBit x n, ?_, by omega, by omega, ?_⟩
    · rw [hs]
      ring
    · rw [h.reg_eq]
      ring

/-- At the end the low half is the quotient. -/
theorem quotient (h : Dividing x y w 0 p q r) : p % 2 ^ w = x / y := by
  have hs : x = r + y * q := by
    have := h.split
    rw [pow_zero, Nat.div_one] at this
    rw [this]
    ring
  have hp : p = 2 ^ w * (2 * r) + q := by
    rw [h.reg, pow_zero, Nat.mod_one]
    ring
  rw [hp, Nat.mul_add_mod, Nat.mod_eq_of_lt h.quot, hs,
    Nat.add_mul_div_left _ _ (Nat.zero_lt_of_lt h.rem), Nat.div_eq_of_lt h.rem, zero_add]

end Dividing

/-- RUN: the register after `k` steps. -/
theorem dividing_iterate (hx : x < 2 ^ w) (hy : 0 < y) (hk : k ≤ w) :
    ∃ q r, Dividing x y k (w - k) ((divNext w y)^[k] (2 * x)) q r := by
  induction k with
  | zero => exact ⟨0, 0, dividing_start hx hy⟩
  | succ k ih =>
    obtain ⟨q, r, h⟩ := ih (by omega)
    obtain ⟨n, rfl⟩ : ∃ n, w = k + n + 1 := ⟨w - (k + 1), by omega⟩
    rw [show k + n + 1 - k = n + 1 by omega] at h
    rw [Function.iterate_succ_apply', show k + n + 1 - (k + 1) = n by omega]
    exact h.next

end DsdOrsoc.Schemes
