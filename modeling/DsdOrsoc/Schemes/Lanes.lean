import Mathlib.Tactic
import DsdOrsoc.Schemes.Bits

/-! Bytes in a memory of 32-bit words, the most significant byte at the lowest address. A word
    address has two bits less than a byte address, and a write has one enable for each lane:

        byte number    0        1        2       3
        bits          31:24    23:16    15:8     7:0
        enable         3        2        1       0

    An aligned access of 1, 2 or 4 bytes stays in one word; there the lanes are the bytes. -/

namespace DsdOrsoc.Schemes.Lanes

/-- A byte of a word. -/
def lane (x : BitVec 32) (k : BitVec 2) : BitVec 8 := x.extractLsb' (24 - 8 * k.toNat) 8

/-- The word with the given bytes. -/
def word (f : BitVec 2 → BitVec 8) : BitVec 32 := f 0 ++ f 1 ++ f 2 ++ f 3

theorem byte_cases (k : BitVec 2) : k = 0 ∨ k = 1 ∨ k = 2 ∨ k = 3 := by
  revert k
  decide

/-- The lanes of four bytes side by side. -/
theorem lane_append (a b c d : BitVec 8) :
    lane (a ++ b ++ c ++ d) 0 = a ∧ lane (a ++ b ++ c ++ d) 1 = b ∧
      lane (a ++ b ++ c ++ d) 2 = c ∧ lane (a ++ b ++ c ++ d) 3 = d := by
  refine ⟨?_, ?_, ?_, ?_⟩ <;> apply BitVec.eq_of_getLsbD_eq <;> intro n hn <;>
    simp only [lane, BitVec.getLsbD_extractLsb', BitVec.getLsbD_append] <;> grind

theorem lane_word (f : BitVec 2 → BitVec 8) (k : BitVec 2) : lane (word f) k = f k := by
  obtain ⟨h0, h1, h2, h3⟩ := lane_append (f 0) (f 1) (f 2) (f 3)
  rcases byte_cases k with rfl | rfl | rfl | rfl
  · exact h0
  · exact h1
  · exact h2
  · exact h3

theorem word_lane (x : BitVec 32) : word (lane x) = x := by
  apply BitVec.eq_of_getLsbD_eq
  intro n hn
  simp only [lane, word, BitVec.getLsbD_extractLsb', BitVec.getLsbD_append]
  grind

variable {w : ℕ}

/-- The word of a byte address. -/
def wordAdr (a : BitVec (w + 2)) : BitVec w := a.extractLsb' 2 w

/-- The place of a byte address in its word. -/
def byteNo (a : BitVec (w + 2)) : BitVec 2 := a.extractLsb' 0 2

/-- The bytes of a memory of words. -/
def bytes (m : BitVec w → BitVec 32) (a : BitVec (w + 2)) : BitVec 8 :=
  lane (m (wordAdr a)) (byteNo a)

/-- A write of the enabled lanes. -/
def write (m : BitVec w → BitVec 32) (a : BitVec w) (sel : BitVec 4) (d : BitVec 32) :
    BitVec w → BitVec 32 :=
  Function.update m a
    (word fun k => if sel.getLsbD (3 - k.toNat) then lane d k else lane (m a) k)

/-- The `n` bytes from address `a` on become the lowest `n` bytes of `d`, and no other changes. -/
def store {v : ℕ} (n : ℕ) (a : BitVec v) (d : BitVec 32) (m : BitVec v → BitVec 8) (b : BitVec v) :
    BitVec 8 :=
  if (b - a).toNat < n then d.extractLsb' (8 * (n - 1 - (b - a).toNat)) 8 else m b

theorem bytes_write (m : BitVec w → BitVec 32) (a : BitVec w) (sel : BitVec 4) (d : BitVec 32)
    (b : BitVec (w + 2)) :
    bytes (write m a sel d) b =
      if wordAdr b = a ∧ sel.getLsbD (3 - (byteNo b).toNat) = true then lane d (byteNo b)
      else bytes m b := by
  by_cases ha : wordAdr b = a
  · simp only [bytes, write, ha, Function.update_self, lane_word, true_and]
  · simp [bytes, write, ha]

/-! ### Addresses in one word -/

theorem toNat_wordAdr (a : BitVec (w + 2)) : (wordAdr a).toNat = a.toNat / 4 := by
  have hlt : a.toNat / 4 < 2 ^ w := by
    have := a.isLt
    rw [pow_add] at this
    omega
  rw [wordAdr, BitVec.extractLsb'_toNat, Nat.shiftRight_eq_div_pow]
  exact Nat.mod_eq_of_lt hlt

theorem toNat_byteNo (a : BitVec (w + 2)) : (byteNo a).toNat = a.toNat % 4 := by
  rw [byteNo, BitVec.extractLsb'_toNat, Nat.shiftRight_zero]

/-- A step that stays in the word. -/
theorem add_within {a : BitVec (w + 2)} {k : ℕ} (h : (byteNo a).toNat + k < 4) :
    wordAdr (a + BitVec.ofNat _ k) = wordAdr a ∧
      (byteNo (a + BitVec.ofNat _ k)).toNat = (byteNo a).toNat + k := by
  have hlt := a.isLt
  have hpow : 2 ^ (w + 2) = 4 * 2 ^ w := by rw [pow_add]; omega
  rw [toNat_byteNo] at h
  have hk : (BitVec.ofNat (w + 2) k).toNat = k := by
    rw [BitVec.toNat_ofNat]
    exact Nat.mod_eq_of_lt (by have := Nat.two_pow_pos w; omega)
  have hsum : (a + BitVec.ofNat _ k).toNat = a.toNat + k := by
    rw [BitVec.toNat_add, hk]
    exact Nat.mod_eq_of_lt (by omega)
  constructor
  · apply BitVec.eq_of_toNat_eq
    rw [toNat_wordAdr, toNat_wordAdr, hsum]
    omega
  · rw [toNat_byteNo, toNat_byteNo, hsum]
    omega

theorem bytes_add {m : BitVec w → BitVec 32} {a : BitVec (w + 2)} {k : ℕ}
    (h : (byteNo a).toNat + k < 4) :
    bytes m (a + BitVec.ofNat _ k) = lane (m (wordAdr a)) (byteNo a + BitVec.ofNat 2 k) := by
  obtain ⟨hw, hb⟩ := add_within h
  have hb' : byteNo (a + BitVec.ofNat _ k) = byteNo a + BitVec.ofNat 2 k := by
    apply BitVec.eq_of_toNat_eq
    rw [hb, BitVec.toNat_add, BitVec.toNat_ofNat]
    omega
  rw [bytes, hw, hb']

/-- The addresses of an access that stays in its word. -/
theorem sub_lt_iff {a b : BitVec (w + 2)} {n : ℕ} (h : (byteNo a).toNat + n ≤ 4) :
    (b - a).toNat < n ↔ wordAdr b = wordAdr a ∧ (byteNo a).toNat ≤ (byteNo b).toNat ∧
      (byteNo b).toNat < (byteNo a).toNat + n := by
  have ha := a.isLt
  have hb := b.isLt
  have hpow : 2 ^ (w + 2) = 4 * 2 ^ w := by rw [pow_add]; omega
  have hsub : (b - a).toNat = if a.toNat ≤ b.toNat then b.toNat - a.toNat
      else 2 ^ (w + 2) + b.toNat - a.toNat := by
    rw [BitVec.toNat_sub]
    split
    · rw [show 2 ^ (w + 2) - a.toNat + b.toNat = b.toNat - a.toNat + 2 ^ (w + 2) by omega,
        Nat.add_mod_right, Nat.mod_eq_of_lt (by omega)]
    · rw [Nat.mod_eq_of_lt (by omega)]
      omega
  have hword : wordAdr b = wordAdr a ↔ b.toNat / 4 = a.toNat / 4 := by
    rw [BitVec.toNat_eq, toNat_wordAdr, toNat_wordAdr]
  rw [toNat_byteNo] at h
  rw [hword, toNat_byteNo, toNat_byteNo, hsub]
  split <;> omega

/-- The offset of a byte in an access. -/
theorem toNat_sub_within {a b : BitVec (w + 2)} (hw : wordAdr b = wordAdr a)
    (hle : (byteNo a).toNat ≤ (byteNo b).toNat) :
    (b - a).toNat = (byteNo b).toNat - (byteNo a).toNat := by
  rw [BitVec.toNat_eq, toNat_wordAdr, toNat_wordAdr] at hw
  rw [toNat_byteNo, toNat_byteNo] at hle ⊢
  rw [BitVec.toNat_sub_of_le (by rw [BitVec.le_def]; omega)]
  omega

/-- STORE: a write of one word is a store of bytes if it enables exactly the lanes of the bytes, and
    they carry them. -/
theorem bytes_write_store {m : BitVec w → BitVec 32} {a : BitVec (w + 2)} {n : ℕ} {sel : BitVec 4}
    {d d' : BitVec 32} (hn : (byteNo a).toNat + n ≤ 4)
    (hsel : ∀ k : BitVec 2, sel.getLsbD (3 - k.toNat) = true ↔
      (byteNo a).toNat ≤ k.toNat ∧ k.toNat < (byteNo a).toNat + n)
    (hd : ∀ k : BitVec 2, (byteNo a).toNat ≤ k.toNat → k.toNat < (byteNo a).toNat + n →
      lane d' k = d.extractLsb' (8 * (n - 1 - (k.toNat - (byteNo a).toNat))) 8) :
    bytes (write m (wordAdr a) sel d') = store n a d (bytes m) := by
  funext b
  simp only [bytes_write, store, hsel, sub_lt_iff hn]
  split
  · next h => rw [hd _ h.2.1 h.2.2, toNat_sub_within h.1 h.2.1]
  · rfl

end DsdOrsoc.Schemes.Lanes
