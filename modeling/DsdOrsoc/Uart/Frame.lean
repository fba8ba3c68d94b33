import Mathlib.Tactic

/-! The frame of one byte on the serial line, counted in ticks of the baud enable, as the line
    control register `lcr` selects it:

        idle pop │ start │ bit 0 │ ... │ bit n-1 │ parity │   stop    │ idle pop │ start
          ‾   ‾     _16_    16            16        16      14/22/30     ‾   ‾

    A `Phase` is a place in that picture. The stop field is two ticks short of its nominal length:
    the two ticks that the transmitter spends between frames complete it. -/

namespace DsdOrsoc.Uart

/-- The line control register. -/
abbrev Lcr := BitVec 8

namespace Lcr

variable (lcr : Lcr)

/-- `UART_LC_BITS`. -/
def bits : BitVec 2 := lcr.extractLsb' 0 2

/-- `UART_LC_SB`: longer stop. -/
def sb : Bool := lcr.getLsbD 2

/-- `UART_LC_PE`: parity enable. -/
def pe : Bool := lcr.getLsbD 3

/-- `UART_LC_EP`: even parity. -/
def ep : Bool := lcr.getLsbD 4

/-- `UART_LC_SP`: stick parity. -/
def sp : Bool := lcr.getLsbD 5

/-- `UART_LC_BC`: break control. -/
def bc : Bool := lcr.getLsbD 6

/-- The word length, from five to eight. -/
def wordLength : ℕ := 5 + lcr.bits.toNat

theorem five_le_wordLength : 5 ≤ lcr.wordLength := Nat.le_add_right ..

theorem wordLength_le : lcr.wordLength ≤ 8 := by
  have := lcr.bits.isLt
  unfold wordLength
  omega

/-- The ticks of the stop field. -/
def stopTicks : ℕ := if lcr.sb then (if lcr.bits = 0 then 22 else 30) else 14

theorem stopTicks_bounds : 14 ≤ lcr.stopTicks ∧ lcr.stopTicks ≤ 30 := by
  unfold stopTicks
  split_ifs <;> decide

/-- The tick of the stop field at which the receiver hands the byte to its FIFO. -/
def pushTick : ℕ := if lcr.pe then 9 else 10

theorem pushTick_bounds : 9 ≤ lcr.pushTick ∧ lcr.pushTick ≤ 10 := by
  unfold pushTick
  split <;> decide

end Lcr

/-- The exclusive or of all bits, `^x`. -/
def xorBits {w : ℕ} (x : BitVec w) : Bool :=
  (List.range w).foldr (fun k p => x.getLsbD k ^^ p) false

/-- The first `m` bits of a byte, at the upper end of a word of length `n`. -/
def gathered (n m : ℕ) (b : BitVec 8) : BitVec 8 := ((b.setWidth m).setWidth 8) <<< (n - m)

theorem getLsbD_gathered {n m : ℕ} (hm : m ≤ n) (hn : n ≤ 8) (b : BitVec 8) (k : ℕ) :
    (gathered n m b).getLsbD k = (decide (k < n ∧ n ≤ m + k) && b.getLsbD (m + k - n)) := by
  simp only [gathered, BitVec.getLsbD_shiftLeft, BitVec.getLsbD_setWidth]
  by_cases h : n ≤ m + k
  · by_cases hk : k < n
    · have h1 : k < 8 := by omega
      have h2 : ¬ k < n - m := by omega
      have h3 : m + k - n < 8 := by omega
      have h4 : m + k - n < m := by omega
      have h5 : k - (n - m) = m + k - n := by omega
      simp only [h5, h, hk, h1, h2, h3, h4, decide_true, decide_false, Bool.not_false,
        Bool.true_and, and_self]
    · have h4 : ¬ k - (n - m) < m := by omega
      simp [hk, h4]
  · have h2 : k < n - m := by omega
    simp [h, h2]

/-- What a byte becomes on a line with that word length. -/
def word (lcr : Lcr) (b : BitVec 8) : BitVec 8 := gathered lcr.wordLength lcr.wordLength b

/-- What the receive FIFO gets for a byte: the word, no break, no parity error, no framing error. -/
def item (lcr : Lcr) (b : BitVec 8) : BitVec 11 := word lcr b ++ 0#3

/-- The parity bit that belongs to a parity of the word. -/
def parityBit (lcr : Lcr) (parity : Bool) : Bool :=
  match lcr.ep, lcr.sp with
  | false, false => !parity
  | false, true => true
  | true, false => parity
  | true, true => false

/-! ### Phases -/

/-- A place in the frame: the field, the number of the data bit, the tick in the field. -/
inductive Phase where
  | idle
  | pop
  | start (j : ℕ)
  | bit (i j : ℕ)
  | parity (j : ℕ)
  | stop (j : ℕ)
  deriving DecidableEq

namespace Phase

variable (lcr : Lcr) (b : BitVec 8)

/-- The places that exist in a format. -/
def Valid : Phase → Prop
  | idle | pop => True
  | start j => j < 16
  | bit i j => i < lcr.wordLength ∧ j < 16
  | parity j => lcr.pe = true ∧ j < 16
  | stop j => j < lcr.stopTicks

/-- The next place, when there is a byte to be sent or not. -/
def next (pending : Bool) : Phase → Phase
  | idle => if pending then pop else idle
  | pop => start 0
  | start j => if j + 1 = 16 then bit 0 0 else start (j + 1)
  | bit i j =>
    if j + 1 = 16 then
      if i + 1 < lcr.wordLength then bit (i + 1) 0 else if lcr.pe then parity 0 else stop 0
    else bit i (j + 1)
  | parity j => if j + 1 = 16 then stop 0 else parity (j + 1)
  | stop j => if j + 1 = lcr.stopTicks then idle else stop (j + 1)

theorem Valid.next {p : Phase} (h : p.Valid lcr) (pending : Bool) :
    (p.next lcr pending).Valid lcr := by
  have hn := lcr.five_le_wordLength
  have hs := lcr.stopTicks_bounds
  cases p with
  | idle => simp only [Phase.next]; split <;> trivial
  | pop => exact Nat.zero_lt_succ _
  | start j =>
    simp only [Phase.next]
    simp only [Valid] at h
    split <;> simp only [Valid] <;> omega
  | bit i j =>
    simp only [Phase.next]
    simp only [Valid] at h
    split_ifs <;> simp only [Valid]
    · omega
    · exact ⟨‹_›, by omega⟩
    · omega
    · omega
  | parity j =>
    simp only [Phase.next]
    simp only [Valid] at h
    split <;> simp only [Valid]
    · omega
    · exact ⟨h.1, by omega⟩
  | stop j =>
    simp only [Phase.next]
    simp only [Valid] at h
    split <;> simp only [Valid]
    omega

/-- The level that a field puts on the line. -/
def level : Phase → Bool
  | idle | pop | stop _ => true
  | start _ => false
  | bit i _ => b.getLsbD i
  | parity _ => parityBit lcr (xorBits (word lcr b))

/-- The level on the line when a tick comes: the output is registered, so the first tick of a field
    still finds the level of the field before. -/
def line : Phase → Bool
  | start 0 => true
  | bit 0 0 => false
  | bit (i + 1) 0 => b.getLsbD i
  | parity 0 => b.getLsbD (lcr.wordLength - 1)
  | stop 0 =>
    if lcr.pe then parityBit lcr (xorBits (word lcr b)) else b.getLsbD (lcr.wordLength - 1)
  | p => p.level lcr b

theorem line_next {p : Phase} (h : p.Valid lcr) (pending : Bool) :
    (p.next lcr pending).line lcr b = p.level lcr b := by
  cases p with
  | idle => simp only [next]; split <;> rfl
  | pop => rfl
  | start j => simp only [next]; split <;> rfl
  | bit i j =>
    have hlast : ¬ i + 1 < lcr.wordLength → lcr.wordLength - 1 = i := by
      intro hi
      have := h.1
      omega
    simp only [next]
    split_ifs with h1 h2 h3
    · rfl
    · simp only [line, level, hlast h2]
    · simp only [line, level, hlast h2, h3, Bool.false_eq_true, if_false]
    · cases i <;> rfl
  | parity j =>
    simp only [next]
    split
    · simp only [line, level, h.1, if_true]
    · rfl
  | stop j => simp only [next]; split <;> rfl

/-- The byte that is sent has not reached the FIFO of the receiver. -/
def carries : Phase → Bool
  | idle | pop => false
  | start _ | bit .. | parity _ => true
  | stop j => j ≤ lcr.pushTick

theorem carries_next {p : Phase} (hp : p ≠ pop) (hp' : p ≠ stop lcr.pushTick) (pending : Bool) :
    (p.next lcr pending).carries lcr = p.carries lcr := by
  have ht := lcr.pushTick_bounds
  have hs := lcr.stopTicks_bounds
  cases p with
  | idle => simp only [next]; split <;> rfl
  | pop => exact absurd rfl hp
  | start j => simp only [next]; split <;> rfl
  | bit i j => simp only [next]; split_ifs <;> simp [carries]
  | parity j => simp only [next]; split <;> simp [carries]
  | stop j =>
    have hj : j ≠ lcr.pushTick := fun hj => hp' (hj ▸ rfl)
    simp only [next]
    split <;> simp only [carries] <;> grind

theorem next_eq_pop {p : Phase} {pending : Bool} (h : p.next lcr pending = pop) :
    p = idle ∧ pending = true := by
  cases p <;> simp only [next] at h <;> grind

theorem next_push (pending : Bool) :
    (stop lcr.pushTick).next lcr pending = stop (lcr.pushTick + 1) := by
  have ht := lcr.pushTick_bounds
  have hs := lcr.stopTicks_bounds
  rw [next, if_neg (by omega)]

/-- The line is high in the tick before the receiver looks at the break counter. -/
theorem line_of_next_armed {p : Phase} {pending : Bool}
    (h : p.next lcr pending = start 1 ∨ p.next lcr pending = stop lcr.pushTick) :
    p.line lcr b = true := by
  have ht := lcr.pushTick_bounds
  cases p with
  | idle | pop => rfl
  | start j =>
    simp only [next] at h
    split at h <;> simp at h
    subst h
    rfl
  | bit i j =>
    simp only [next] at h
    split_ifs at h <;> simp at h
    omega
  | parity j =>
    simp only [next] at h
    split at h <;> simp at h
    omega
  | stop j =>
    simp only [next] at h
    split at h <;> simp at h
    obtain ⟨k, rfl⟩ := Nat.exists_eq_succ_of_ne_zero (show j ≠ 0 by omega)
    rfl

/-- A bound on the ticks until the next push of the receiver, if there is something to send. -/
def ticksLeft : Phase → ℕ
  | idle => 301
  | pop => 300
  | start j => 16 * lcr.wordLength + 50 - j
  | bit i j => 16 * (lcr.wordLength - i) + 30 - j
  | parity j => 30 - j
  | stop j => if j ≤ lcr.pushTick then lcr.pushTick - j else 430 - j

theorem ticksLeft_le (p : Phase) : p.ticksLeft lcr ≤ 430 := by
  have := lcr.wordLength_le
  have := lcr.pushTick_bounds
  cases p <;> simp only [ticksLeft] <;> grind

/-- RANK: every tick but the one of the push brings the push nearer. -/
theorem ticksLeft_next_lt {p : Phase} (h : p.Valid lcr) (hp : p ≠ stop lcr.pushTick)
    {pending : Bool} (hidle : p = idle → pending = true) :
    (p.next lcr pending).ticksLeft lcr < p.ticksLeft lcr := by
  have hn := lcr.wordLength_le
  have ht := lcr.pushTick_bounds
  have hs := lcr.stopTicks_bounds
  cases p with
  | idle => rw [hidle rfl]; exact Nat.lt_succ_self _
  | pop => simp only [next, ticksLeft]; omega
  | start j =>
    simp only [Valid] at h
    simp only [next]
    split <;> simp only [ticksLeft] <;> omega
  | bit i j =>
    simp only [Valid] at h
    simp only [next]
    split_ifs <;> simp only [ticksLeft] <;> grind
  | parity j =>
    simp only [Valid] at h
    simp only [next]
    split <;> simp only [ticksLeft] <;> grind
  | stop j =>
    simp only [Valid] at h
    have hj : j ≠ lcr.pushTick := fun hj => hp (hj ▸ rfl)
    simp only [next]
    split <;> simp only [ticksLeft] <;> grind

end Phase

end DsdOrsoc.Uart
