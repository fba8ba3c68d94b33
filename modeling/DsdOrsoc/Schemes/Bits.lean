import Mathlib.Tactic

/-! Concatenation and slicing of bit vectors, as the address splits of the design use them. -/

namespace DsdOrsoc.Schemes

/-- A concatenation determines both parts. -/
theorem append_inj {v w : ℕ} {a a' : BitVec v} {b b' : BitVec w} :
    a ++ b = a' ++ b' ↔ a = a' ∧ b = b' := by
  constructor
  · intro h
    have ha := congrArg (BitVec.extractLsb' w v) h
    have hb := congrArg (BitVec.extractLsb' 0 w) h
    rw [BitVec.extractLsb'_append_eq_left, BitVec.extractLsb'_append_eq_left] at ha
    rw [BitVec.extractLsb'_append_eq_right, BitVec.extractLsb'_append_eq_right] at hb
    exact ⟨ha, hb⟩
  · rintro ⟨rfl, rfl⟩; rfl

theorem toNat_append_add {v w : ℕ} (x : BitVec v) (y : BitVec w) :
    (x ++ y).toNat = x.toNat * 2 ^ w + y.toNat := by
  rw [BitVec.toNat_append, ← Nat.shiftLeft_add_eq_or_of_lt y.isLt, Nat.shiftLeft_eq]

/-- A bit vector is determined by a high and a low slice that cover it. -/
theorem slice_ext {v w : ℕ} {x y : BitVec (v + w)} (hi : x.extractLsb' w v = y.extractLsb' w v)
    (lo : x.extractLsb' 0 w = y.extractLsb' 0 w) : x = y := by
  rw [← BitVec.extractLsb'_append_extractLsb' (x := x), hi, lo,
    BitVec.extractLsb'_append_extractLsb']

theorem eq_append_iff {v w : ℕ} {x : BitVec (v + w)} {a : BitVec v} {b : BitVec w} :
    x = a ++ b ↔ x.extractLsb' w v = a ∧ x.extractLsb' 0 w = b := by
  constructor
  · rintro rfl
    exact ⟨BitVec.extractLsb'_append_eq_left, BitVec.extractLsb'_append_eq_right⟩
  · rintro ⟨rfl, rfl⟩
    exact BitVec.extractLsb'_append_extractLsb'.symm

theorem eq_ofNat_iff {w j : ℕ} (hj : j < 2 ^ w) (x : BitVec w) :
    x = BitVec.ofNat w j ↔ x.toNat = j := by
  constructor
  · rintro rfl
    rw [BitVec.toNat_ofNat, Nat.mod_eq_of_lt hj]
  · rintro rfl
    rw [BitVec.ofNat_toNat, BitVec.setWidth_eq]

/-- A counter that has not reached zero runs down by one. -/
theorem toNat_sub_one {w : ℕ} {c : BitVec w} (h : c ≠ 0) : (c - 1).toNat + 1 = c.toNat := by
  have hw : 0 < w := by
    rw [Nat.pos_iff_ne_zero]
    rintro rfl
    exact h (BitVec.eq_of_zero_length rfl)
  have h0 : 0 < c.toNat := by
    rw [Nat.pos_iff_ne_zero]
    exact fun h' => h (BitVec.eq_of_toNat_eq (by simpa using h'))
  have h1 : (1 : BitVec w).toNat = 1 := BitVec.toNat_one hw
  have hle : (1 : BitVec w) ≤ c := by rw [BitVec.le_def, h1]; exact h0
  rw [BitVec.toNat_sub_of_le hle, h1]
  omega

theorem toNat_sub_one_lt {w : ℕ} {c : BitVec w} (h : c ≠ 0) : (c - 1).toNat < c.toNat := by
  have := toNat_sub_one h
  omega

/-- Zero extension keeps the low slice. -/
@[simp] theorem extract_setWidth {v w : ℕ} (h : v ≤ w) (x : BitVec v) :
    (x.setWidth w).extractLsb' 0 v = x := by
  rw [← BitVec.setWidth_eq_extractLsb' h, BitVec.setWidth_setWidth_of_le x h, BitVec.setWidth_eq]

end DsdOrsoc.Schemes
