import DsdOrsoc.Uart.Transmitter

/-! The receiver `uart_receiver`: the state machine on the baud enable, the break counter that the
    idle line reloads, and the FIFO that is pushed on the rising edge of `rf_push`. `RxAt` says
    which registers it has when the line is at a place in a frame. The two machines are in step: in
    the start, data and parity fields `rcounter16` is the counter of the transmitter,

        field    start                      bit 0      bit i        parity
        tick j   0 1   2..9     10..15      0    1..   0  1    2..  0  1    2..9 10 11 12..
        rstate   idle  recStart recPrepare  ..   bit   .. end  bit  .. end  par  ca ck wait

    and every bit is read at tick 9, with the level of its field on the line. -/

namespace DsdOrsoc.Uart
open Schemes

/-- `sr_idle`, `sr_rec_start`, `sr_rec_bit`, `sr_rec_parity`, `sr_rec_stop`, `sr_check_parity`,
    `sr_rec_prepare`, `sr_end_bit`, `sr_ca_lc_parity`, `sr_wait1`, `sr_push`. -/
inductive RState where
  | idle | recStart | recBit | recParity | recStop | checkParity | recPrepare | endBit | caLcParity
  | wait1 | push
  deriving DecidableEq

structure Receiver where
  fifo : Rfifo
  rstate : RState
  rcounter16 : BitVec 4
  rbitCounter : BitVec 3
  rshift : BitVec 8
  rparity : Bool
  rparityError : Bool
  rframingError : Bool
  rparityXor : Bool
  counterB : BitVec 8
  rfPush : Bool
  rfPushQ : Bool
  rfDataIn : RecWord

structure ReceiverIn where
  lcr : Lcr
  rfPop : Bool
  srxPadI : Bool
  enable : Bool
  rxReset : Bool
  lsrMask : Bool

/-- `toc_value`: four character times. -/
def tocValue (lcr : Lcr) : BitVec 10 :=
  match lcr.extractLsb' 0 4 with
  | 0b0000 => 447
  | 0b0100 => 479
  | 0b0001 | 0b1000 => 511
  | 0b1100 => 543
  | 0b0010 | 0b0101 | 0b1001 => 575
  | 0b0011 | 0b0110 | 0b1010 | 0b1101 => 639
  | 0b0111 | 0b1011 | 0b1110 => 703
  | _ => 767

/-- `brc_value`: one character time. -/
def brcValue (lcr : Lcr) : BitVec 8 := (tocValue lcr).extractLsb' 2 8

/-- A bit enters `rshift` at the upper end of the word. -/
def shiftIn (lcr : Lcr) (rshift : BitVec 8) (x : Bool) : BitVec 8 :=
  match lcr.bits with
  | 0b00 => rshift.extractLsb' 5 3 ++ (BitVec.ofBool x ++ rshift.extractLsb' 1 4)
  | 0b01 => rshift.extractLsb' 6 2 ++ (BitVec.ofBool x ++ rshift.extractLsb' 1 5)
  | 0b10 => rshift.extractLsb' 7 1 ++ (BitVec.ofBool x ++ rshift.extractLsb' 1 6)
  | _ => BitVec.ofBool x ++ rshift.extractLsb' 1 7

namespace Receiver

variable (r : Receiver) (lcr : Lcr) (srx : Bool)

def breakError : Bool := r.counterB = 0

/-- `{rshift, 1'b0, rparity_error, rframing_error}`. -/
def recWord : RecWord :=
  r.rshift ++
    (BitVec.ofBool false ++ (BitVec.ofBool r.rparityError ++ BitVec.ofBool r.rframingError))

/-- The state machine at a tick of the baud enable. -/
def tick : Receiver :=
  match r.rstate with
  | .idle =>
    { r with
      rfPush := false
      rfDataIn := 0
      rcounter16 := 0b1110
      rstate := if !srx && !r.breakError then .recStart else r.rstate }
  | .recStart =>
    { r with
      rfPush := false
      rstate := if r.rcounter16 = 7 then (if srx then .idle else .recPrepare) else r.rstate
      rcounter16 := r.rcounter16 - 1 }
  | .recPrepare =>
    { r with
      rbitCounter := lastBit lcr
      rstate := if r.rcounter16 = 0 then .recBit else .recPrepare
      rshift := if r.rcounter16 = 0 then 0 else r.rshift
      -- the assignment of 14 at zero is overruled by the decrement after it
      rcounter16 := r.rcounter16 - 1 }
  | .recBit =>
    { r with
      rstate := if r.rcounter16 = 0 then .endBit else r.rstate
      rshift := if r.rcounter16 = 7 then shiftIn lcr r.rshift srx else r.rshift
      rcounter16 := r.rcounter16 - 1 }
  | .endBit =>
    if r.rbitCounter = 0 then
      if lcr.pe then { r with rstate := .recParity, rcounter16 := 0b1110 }
      else { r with rstate := .recStop, rparityError := false, rcounter16 := 0b1110 }
    else
      { r with rstate := .recBit, rbitCounter := r.rbitCounter - 1, rcounter16 := 0b1110 }
  | .recParity =>
    { r with
      rparity := if r.rcounter16 = 7 then srx else r.rparity
      rstate := if r.rcounter16 = 7 then .caLcParity else r.rstate
      rcounter16 := r.rcounter16 - 1 }
  | .caLcParity =>
    { r with
      rcounter16 := r.rcounter16 - 1
      rparityXor := xorBits (r.rshift ++ BitVec.ofBool r.rparity)
      rstate := .checkParity }
  | .checkParity =>
    { r with
      rparityError :=
        match lcr.ep, lcr.sp with
        | false, false => !r.rparityXor
        | false, true => !r.rparity
        | true, false => r.rparityXor
        | true, true => r.rparity
      rcounter16 := r.rcounter16 - 1
      rstate := .wait1 }
  | .wait1 =>
    if r.rcounter16 = 0 then { r with rstate := .recStop, rcounter16 := 0b1110 }
    else { r with rcounter16 := r.rcounter16 - 1 }
  | .recStop =>
    { r with
      rframingError := if r.rcounter16 = 7 then !srx else r.rframingError
      rstate := if r.rcounter16 = 7 then .push else r.rstate
      rcounter16 := r.rcounter16 - 1 }
  | .push =>
    if srx || r.breakError then
      { r with
        rfDataIn := if r.breakError then 0b100 else r.recWord
        rfPush := true
        rstate := .idle }
    else if !r.rframingError then
      { r with
        rfDataIn := r.recWord
        rfPush := true
        rcounter16 := 0b1110
        rstate := .recStart }
    else r

/-- `rf_push_pulse`. -/
def rfPushPulse : Bool := r.rfPush && !r.rfPushQ

/-- The pins of the FIFO. -/
@[simps] def fifoIn (i : ReceiverIn) : FifoIn RecWord where
  push := r.rfPushPulse
  pop := i.rfPop
  fifoReset := i.rxReset
  resetStatus := i.lsrMask
  dataIn := r.rfDataIn

/-- The break counter. -/
def counterBNext (i : ReceiverIn) : BitVec 8 :=
  if i.srxPadI then brcValue i.lcr
  else if i.enable && r.counterB != 0 then r.counterB - 1 else r.counterB

/-- One rising edge of the clock. -/
def clk (i : ReceiverIn) : Receiver :=
  { (if i.enable then r.tick i.lcr i.srxPadI else r) with
    fifo := r.fifo.clk (r.fifoIn i)
    counterB := r.counterBNext i
    rfPushQ := r.rfPush }

end Receiver

/-! ### Bits -/

theorem brcValue_ne_zero (lcr : Lcr) : brcValue lcr ≠ 0 := by
  unfold brcValue tocValue
  generalize lcr.extractLsb' 0 4 = x
  revert x
  decide

/-- A bit above the upper `m` of `m + 1` bits. -/
theorem getLsbD_insert (r : BitVec 8) (x : Bool) {m k : ℕ} (hk : k ≤ m) :
    (BitVec.ofBool x ++ r.extractLsb' 1 m).getLsbD k = if k = m then x else r.getLsbD (k + 1) := by
  rw [BitVec.getLsbD_append, BitVec.getLsbD_ofBool, BitVec.getLsbD_extractLsb']
  rcases Nat.eq_or_lt_of_le hk with rfl | hlt
  · simp
  · simp [hlt, Nat.ne_of_lt hlt, Nat.add_comm]

/-- The same below bits that stay. -/
theorem getLsbD_insert_below (r : BitVec 8) (x : Bool) {h m k : ℕ} (hk : k < h + (1 + m)) :
    (r.extractLsb' (1 + m) h ++ (BitVec.ofBool x ++ r.extractLsb' 1 m)).getLsbD k =
      if k + 1 = m + 1 then x
      else if k + 1 < m + 1 then r.getLsbD (k + 1) else r.getLsbD k := by
  rw [BitVec.getLsbD_append]
  split
  · rw [getLsbD_insert r x (by omega)]
    grind
  · rw [BitVec.getLsbD_extractLsb', if_neg (by omega), if_neg (by omega)]
    simp [show k - (1 + m) < h by omega, show 1 + m + (k - (1 + m)) = k by omega]

theorem getLsbD_shiftIn (lcr : Lcr) (r : BitVec 8) (x : Bool) {k : ℕ} (hk : k < 8) :
    (shiftIn lcr r x).getLsbD k =
      if k + 1 = lcr.wordLength then x
      else if k + 1 < lcr.wordLength then r.getLsbD (k + 1) else r.getLsbD k := by
  have hbits : ∀ x : BitVec 2, x = 0 ∨ x = 1 ∨ x = 2 ∨ x = 3 := by decide
  unfold shiftIn Lcr.wordLength
  rcases hbits lcr.bits with h | h | h | h <;> rw [h]
  · simpa using getLsbD_insert_below (h := 3) (m := 4) r x hk
  · simpa using getLsbD_insert_below (h := 2) (m := 5) r x hk
  · simpa using getLsbD_insert_below (h := 1) (m := 6) r x hk
  · have := getLsbD_insert (m := 7) r x (Nat.le_of_lt_succ hk)
    grind

/-- Bit `m` joins the first `m` bits. -/
theorem shiftIn_gathered (lcr : Lcr) (b : BitVec 8) {m : ℕ} (hm : m < lcr.wordLength) :
    shiftIn lcr (gathered lcr.wordLength m b) (b.getLsbD m) =
      gathered lcr.wordLength (m + 1) b := by
  have hn := lcr.wordLength_le
  apply BitVec.eq_of_getLsbD_eq
  intro k hk
  rw [getLsbD_shiftIn lcr _ _ hk, getLsbD_gathered hm hn, getLsbD_gathered (by omega) hn,
    getLsbD_gathered (by omega) hn]
  split_ifs with h1 h2
  · simp [show k < lcr.wordLength by omega, show lcr.wordLength ≤ m + 1 + k by omega,
      show m + 1 + k - lcr.wordLength = m by omega]
  · simp [h2, show k < lcr.wordLength by omega, show m + (k + 1) = m + 1 + k by omega]
  · simp [show ¬ k < lcr.wordLength by omega]

theorem gathered_zero (n : ℕ) (b : BitVec 8) : gathered n 0 b = 0 := by
  rw [gathered, BitVec.eq_nil (b.setWidth 0)]
  simp

theorem xorBits_append {w : ℕ} (x : BitVec w) (y : Bool) :
    xorBits (x ++ BitVec.ofBool y) = (xorBits x ^^ y) := by
  have h0 : (x ++ BitVec.ofBool y).getLsbD 0 = y := by
    rw [BitVec.getLsbD_append]
    simp
  have hsucc : ∀ k, (x ++ BitVec.ofBool y).getLsbD (k + 1) = x.getLsbD k := by
    simp [BitVec.getLsbD_append]
  rw [xorBits, List.range_succ_eq_map, List.foldr_cons, List.foldr_map, h0, Bool.xor_comm]
  simp only [Nat.succ_eq_add_one, hsucc, xorBits]

/-! ### Places in the frame -/

/-- `rcounter16` at tick `j` of a field. -/
def tock (j : ℕ) : BitVec 4 := BitVec.ofNat 4 (16 - j)

theorem tock_sub_one {j : ℕ} (hj : j < 16) : tock j - 1 = tock (j + 1) := by
  revert j
  decide

theorem tock_eq_seven {j : ℕ} (hj : j ≤ 16) : tock j = 7 ↔ j = 9 := by
  have h : ∀ j < 17, tock j = 7 ↔ j = 9 := by decide
  exact h j (by omega)

theorem tock_eq_zero {j : ℕ} (hj : j < 16) : tock j = 0 ↔ j = 0 := by
  revert j
  decide

theorem tock_wrap : tock 16 = tock 0 := by decide

/-- The state of the receiver at a place. -/
def Phase.rstate (lcr : Lcr) : Phase → RState
  | idle | pop => .idle
  | start j => if j ≤ 1 then .idle else if j ≤ 9 then .recStart else .recPrepare
  | bit 0 j => if j = 0 then .recPrepare else .recBit
  | bit (_ + 1) j => if j = 1 then .endBit else .recBit
  | parity j =>
    if j = 0 then .recBit else if j = 1 then .endBit else if j ≤ 9 then .recParity
    else if j = 10 then .caLcParity else if j = 11 then .checkParity else .wait1
  | stop j =>
    if j = lcr.pushTick then .push else if lcr.pushTick < j then .idle
    else if lcr.pe then (if j = 0 then .wait1 else .recStop)
    else if j = 0 then .recBit else if j = 1 then .endBit else .recStop

/-- The tick that `rcounter16` shows at a place. After a parity bit it is one ahead. -/
def Phase.rtick (lcr : Lcr) : Phase → ℕ
  | idle | pop => 0
  | start j | bit _ j | parity j => j
  | stop j => if lcr.pe && j != 0 then j + 1 else j

/-- What the receiver holds of the byte at a place. -/
def Phase.RxHolds (lcr : Lcr) (b : BitVec 8) (r : Receiver) : Phase → Prop
  | idle | pop | start _ => True
  | bit i j =>
    i + j = 0 ∨
      (r.rshift = gathered lcr.wordLength (if j ≤ 9 then i else i + 1) b ∧
        r.rbitCounter.toNat + (if j ≤ 1 then i - 1 else i) + 1 = lcr.wordLength)
  | parity j =>
    r.rshift = word lcr b ∧ (j ≤ 1 → r.rbitCounter = 0) ∧
      (10 ≤ j → r.rparity = parityBit lcr (xorBits (word lcr b))) ∧
      (11 ≤ j → r.rparityXor = (xorBits (word lcr b) ^^ parityBit lcr (xorBits (word lcr b)))) ∧
      (12 ≤ j → r.rparityError = false)
  | stop j =>
    r.rshift = word lcr b ∧ (lcr.pe = false → j ≤ 1 → r.rbitCounter = 0) ∧
      (lcr.pe = true ∨ 2 ≤ j → r.rparityError = false) ∧
      (lcr.pushTick ≤ j → r.rframingError = false)

/-- The receiver is where the line is. -/
structure RxAt (lcr : Lcr) (b : BitVec 8) (p : Phase) (r : Receiver) : Prop where
  rstate : r.rstate = p.rstate lcr
  rcounter : p.rstate lcr ≠ .idle → r.rcounter16 = tock (p.rtick lcr)
  holds : p.RxHolds lcr b r

section RxAt

variable {lcr : Lcr} {b : BitVec 8} {r : Receiver} {i j : ℕ}

/-- A state at a place, and the counter if the state is not idle. -/
theorem RxAt.cases {p : Phase} (h : RxAt lcr b p r) {x : RState} (hx : p.rstate lcr = x)
    (hne : x ≠ .idle) : r.rstate = x ∧ r.rcounter16 = tock (p.rtick lcr) :=
  ⟨h.rstate.trans hx, h.rcounter (hx ▸ hne)⟩

theorem RxAt.tick_start (h : RxAt lcr b (.start j) r) (hj : j < 16)
    (hb : j = 1 → r.counterB ≠ 0) (pending : Bool) :
    RxAt lcr b ((Phase.start j).next lcr pending) (r.tick lcr ((Phase.start j).line lcr b)) := by
  have hl : 0 < j → (Phase.start j).line lcr b = false := by
    intro h0
    obtain ⟨k, rfl⟩ := Nat.exists_eq_succ_of_ne_zero h0.ne'
    rfl
  rcases (by omega : j = 0 ∨ j = 1 ∨ (2 ≤ j ∧ j ≤ 9) ∨ (10 ≤ j ∧ j ≤ 14) ∨ j = 15) with
    rfl | rfl | hj' | hj' | rfl
  · -- the line is still high
    have hs : r.rstate = .idle := h.rstate
    refine ⟨?_, fun hne => absurd rfl hne, trivial⟩
    simp [Receiver.tick, hs, Phase.line]
    rfl
  · have hs : r.rstate = .idle := h.rstate
    have hb : r.breakError = false := by simpa [Receiver.breakError] using hb rfl
    refine ⟨?_, fun _ => ?_, trivial⟩
    · simp [Receiver.tick, hs, hl, hb]
      rfl
    · simp only [Receiver.tick, hs]
      rfl
  · obtain ⟨hs, hc⟩ := h.cases (x := .recStart) (by simp only [Phase.rstate]; grind) (by decide)
    rw [hl (by omega)]
    simp only [Phase.next, show j + 1 ≠ 16 by omega, if_false]
    refine ⟨?_, fun _ => ?_, trivial⟩ <;>
      simp only [Receiver.tick, hs, hc, Phase.rtick, tock_eq_seven hj.le, tock_sub_one hj]
    simp only [Phase.rstate]
    grind
  · obtain ⟨hs, hc⟩ := h.cases (x := .recPrepare) (by simp only [Phase.rstate]; grind) (by decide)
    simp only [Phase.next, show j + 1 ≠ 16 by omega, if_false]
    refine ⟨?_, fun _ => ?_, trivial⟩ <;>
      simp only [Receiver.tick, hs, hc, Phase.rtick, tock_eq_zero hj, tock_sub_one hj]
    simp only [Phase.rstate]
    grind
  · obtain ⟨hs, hc⟩ := h.cases (x := .recPrepare) rfl (by decide)
    refine ⟨?_, fun _ => ?_, .inl rfl⟩ <;> simp only [Receiver.tick, hs, hc] <;> rfl

/-- The receiver in the middle of data bit `i`. -/
structure RxBit (lcr : Lcr) (b : BitVec 8) (i j : ℕ) (r : Receiver) : Prop where
  rstate : r.rstate = .recBit
  rcounter : r.rcounter16 = tock j
  rshift : r.rshift = gathered lcr.wordLength (if j ≤ 9 then i else i + 1) b
  rbitCounter : r.rbitCounter.toNat + i + 1 = lcr.wordLength

/-- A data bit is read at tick 9. -/
theorem RxBit.tick (h : RxBit lcr b i j r) (hi : i < lcr.wordLength) (h0 : 0 < j) (hj : j < 16) :
    RxBit lcr b i (j + 1) (r.tick lcr (b.getLsbD i)) := by
  have hs := h.rstate
  refine ⟨?_, ?_, ?_, ?_⟩ <;>
    simp only [Receiver.tick, hs, h.rcounter, tock_eq_zero hj, tock_eq_seven hj.le]
  · rw [if_neg (by omega)]
  · exact tock_sub_one hj
  · rw [h.rshift]
    rcases (by omega : j < 9 ∨ j = 9 ∨ 9 < j) with h9 | rfl | h9
    · rw [if_neg (by omega), if_pos (by omega), if_pos (by omega)]
    · exact shiftIn_gathered lcr b hi
    · rw [if_neg (by omega), if_neg (by omega), if_neg (by omega)]
  · exact h.rbitCounter

theorem RxAt.bit (h : RxAt lcr b (.bit i j) r) (hj : if i = 0 then 0 < j else 1 < j) :
    RxBit lcr b i j r := by
  have hx : (Phase.bit i j).rstate lcr = .recBit := by
    cases i <;> simp only [Phase.rstate] <;> grind
  obtain ⟨hs, hc⟩ := h.cases hx (by decide)
  rcases h.holds with h0 | ⟨hsh, hbc⟩
  · grind
  · refine ⟨hs, hc, hsh, ?_⟩
    rw [← hbc]
    grind

theorem RxBit.rxAt (h : RxBit lcr b i j r) (hj : if i = 0 then 0 < j else 1 < j) :
    RxAt lcr b (.bit i j) r := by
  have hx : (Phase.bit i j).rstate lcr = .recBit := by
    cases i <;> simp only [Phase.rstate] <;> grind
  refine ⟨h.rstate.trans hx.symm, fun _ => h.rcounter, .inr ⟨h.rshift, ?_⟩⟩
  rw [← h.rbitCounter]
  grind

/-- The end of a data bit. -/
theorem RxBit.rxAt_next (h : RxBit lcr b i 16 r) (hi : i < lcr.wordLength) (pending : Bool) :
    RxAt lcr b ((Phase.bit i 15).next lcr pending) r := by
  have hsh : r.rshift = gathered lcr.wordLength (i + 1) b := h.rshift
  have hbc := h.rbitCounter
  have hc : r.rcounter16 = tock 0 := h.rcounter.trans tock_wrap
  have hlast : ¬ i + 1 < lcr.wordLength → i + 1 = lcr.wordLength := by omega
  have hzero : ¬ i + 1 < lcr.wordLength → r.rbitCounter = 0 := fun hn =>
    BitVec.eq_of_toNat_eq (by simp; omega)
  simp only [Phase.next, if_true]
  split_ifs with h1 h2
  · exact ⟨h.rstate, fun _ => hc, .inr ⟨hsh, hbc⟩⟩
  · refine ⟨h.rstate, fun _ => hc, ?_, fun _ => hzero h1, ?_, ?_, ?_⟩
    · rw [hsh, hlast h1]; rfl
    all_goals intro hj; omega
  · have hp : lcr.pushTick = 10 := by simp [Lcr.pushTick, h2]
    refine ⟨?_, fun _ => ?_, ?_, fun _ _ => hzero h1, fun hj => ?_, fun hj => ?_⟩
    · simp [Phase.rstate, hp, h2, h.rstate]
    · simpa [Phase.rtick] using hc
    · rw [hsh, hlast h1]; rfl
    · rcases hj with hj | hj
      · exact absurd hj h2
      · omega
    · omega

/-- The first two ticks of a field after a data bit close that bit. -/
theorem Receiver.tick_recBit_zero (hs : r.rstate = .recBit) (hc : r.rcounter16 = tock 0)
    (x : Bool) : r.tick lcr x = { r with rstate := .endBit, rcounter16 := tock 1 } := by
  simp only [Receiver.tick, hs, hc]
  rfl

theorem RxAt.tick_bit (h : RxAt lcr b (.bit i j) r) (hi : i < lcr.wordLength) (hj : j < 16)
    (pending : Bool) :
    RxAt lcr b ((Phase.bit i j).next lcr pending) (r.tick lcr ((Phase.bit i j).line lcr b)) := by
  by_cases hmid : if i = 0 then 0 < j else 1 < j
  · have h0 : 0 < j := by grind
    have hl : (Phase.bit i j).line lcr b = b.getLsbD i := by
      obtain ⟨k, rfl⟩ := Nat.exists_eq_succ_of_ne_zero h0.ne'
      cases i <;> rfl
    have := (h.bit hmid).tick hi h0 hj
    rw [hl]
    by_cases h15 : j = 15
    · subst h15
      exact this.rxAt_next hi pending
    · rw [Phase.next, if_neg (by omega)]
      exact this.rxAt (by grind)
  · rcases (by grind : (i = 0 ∧ j = 0) ∨ (0 < i ∧ j = 0) ∨ (0 < i ∧ j = 1)) with
      ⟨rfl, rfl⟩ | ⟨h0, rfl⟩ | ⟨h0, rfl⟩
    · -- the last tick of the start bit for the receiver
      obtain ⟨hs, hc⟩ := h.cases (x := .recPrepare) rfl (by decide)
      have hc : r.rcounter16 = 0 := hc.trans (by decide : tock 0 = 0)
      refine ⟨?_, fun _ => ?_, .inr ⟨?_, ?_⟩⟩ <;> simp only [Receiver.tick, hs, hc, if_true]
      · rfl
      · rfl
      · exact (gathered_zero _ _).symm
      · exact toNat_lastBit lcr
    · obtain ⟨k, rfl⟩ := Nat.exists_eq_succ_of_ne_zero h0.ne'
      obtain ⟨hs, hc⟩ := h.cases (x := .recBit) rfl (by decide)
      rw [Receiver.tick_recBit_zero hs hc]
      refine ⟨rfl, fun _ => rfl, .inr ?_⟩
      exact h.holds.resolve_left (by omega)
    · obtain ⟨k, rfl⟩ := Nat.exists_eq_succ_of_ne_zero h0.ne'
      obtain ⟨hs, hc⟩ := h.cases (x := .endBit) rfl (by decide)
      obtain ⟨hsh, hbc⟩ := h.holds.resolve_left (by omega)
      simp only [le_refl, if_true, Nat.succ_sub_one] at hbc
      have hne : r.rbitCounter ≠ 0 := by
        rintro h0
        rw [h0] at hbc
        simp at hbc
        omega
      refine ⟨?_, fun _ => ?_, .inr ⟨?_, ?_⟩⟩ <;> simp only [Receiver.tick, hs, hne, if_false]
      · rfl
      · rfl
      · exact hsh
      · have := toNat_sub_one hne
        simp only [Nat.reduceAdd, Nat.reduceLeDiff, if_false]
        omega

theorem parityError_eq (lcr : Lcr) (x : Bool) :
    (match lcr.ep, lcr.sp with
      | false, false => !(x ^^ parityBit lcr x)
      | false, true => !(parityBit lcr x)
      | true, false => x ^^ parityBit lcr x
      | true, true => parityBit lcr x) = false := by
  unfold parityBit
  cases lcr.ep <;> cases lcr.sp <;> simp

/-- The ticks of the parity field that close the last data bit. -/
theorem RxAt.tick_parity_early (h : RxAt lcr b (.parity j) r) (hpe : lcr.pe = true) (hj : j ≤ 1)
    (pending : Bool) :
    RxAt lcr b ((Phase.parity j).next lcr pending) (r.tick lcr ((Phase.parity j).line lcr b)) := by
  obtain ⟨hsh, hbc, -⟩ := h.holds
  rcases Nat.le_one_iff_eq_zero_or_eq_one.1 hj with rfl | rfl
  · obtain ⟨hs, hc⟩ := h.cases (x := .recBit) rfl (by decide)
    rw [Receiver.tick_recBit_zero hs hc]
    exact ⟨rfl, fun _ => rfl, hsh, fun _ => hbc (by omega), by omega, by omega, by omega⟩
  · have hs : r.rstate = .endBit := h.rstate
    refine ⟨?_, fun _ => ?_, ?_, ?_, ?_, ?_, ?_⟩ <;>
      simp only [Receiver.tick, hs, hbc (le_refl 1), hpe, if_true]
    · rfl
    · rfl
    · exact hsh
    all_goals intro hj; omega

/-- The parity bit is read at tick 9. -/
theorem RxAt.tick_recParity (h : RxAt lcr b (.parity j) r) (h2 : 2 ≤ j) (h9 : j ≤ 9)
    (pending : Bool) :
    RxAt lcr b ((Phase.parity j).next lcr pending) (r.tick lcr ((Phase.parity j).line lcr b)) := by
  have hsh := h.holds.1
  have hl : (Phase.parity j).line lcr b = parityBit lcr (xorBits (word lcr b)) := by
    obtain ⟨k, rfl⟩ := Nat.exists_eq_succ_of_ne_zero (by omega : j ≠ 0)
    rfl
  obtain ⟨hs, hc⟩ := h.cases (x := .recParity) (by simp only [Phase.rstate]; grind) (by decide)
  rw [hl]
  simp only [Phase.next, show j + 1 ≠ 16 by omega, if_false]
  refine ⟨?_, fun _ => ?_, ?_, ?_, ?_, ?_, ?_⟩ <;>
    simp only [Receiver.tick, hs, hc, Phase.rtick, tock_eq_seven (by omega : j ≤ 16),
      tock_sub_one (by omega : j < 16)]
  · simp only [Phase.rstate]
    grind
  · exact hsh
  · intro hj; omega
  · intro h10
    rw [if_pos (by omega)]
  all_goals intro hj; omega

/-- The parity of the word is formed at tick 10 and compared at tick 11. -/
theorem RxAt.tick_parity_check (h : RxAt lcr b (.parity j) r) (hj : j = 10 ∨ j = 11)
    (pending : Bool) :
    RxAt lcr b ((Phase.parity j).next lcr pending) (r.tick lcr ((Phase.parity j).line lcr b)) := by
  obtain ⟨hsh, -, hpar, hxor, -⟩ := h.holds
  rcases hj with rfl | rfl
  · obtain ⟨hs, hc⟩ := h.cases (x := .caLcParity) rfl (by decide)
    refine ⟨?_, fun _ => ?_, ?_, ?_, ?_, ?_, ?_⟩ <;> simp only [Receiver.tick, hs, hc]
    · rfl
    · exact tock_sub_one (j := 10) (by omega)
    · exact hsh
    · intro hj; omega
    · exact fun _ => hpar (le_refl _)
    · intro _
      rw [xorBits_append, hsh, hpar (le_refl _)]
    · intro hj; omega
  · obtain ⟨hs, hc⟩ := h.cases (x := .checkParity) rfl (by decide)
    refine ⟨?_, fun _ => ?_, ?_, ?_, ?_, ?_, ?_⟩ <;> simp only [Receiver.tick, hs, hc]
    · rfl
    · exact tock_sub_one (j := 11) (by omega)
    · exact hsh
    · intro hj; omega
    · exact fun _ => hpar (by omega)
    · exact fun _ => hxor (le_refl _)
    · intro _
      rw [hpar (by omega), hxor (le_refl _)]
      exact parityError_eq lcr _

/-- Afterwards the receiver waits for the end of the field. -/
theorem RxAt.tick_parity_wait (h : RxAt lcr b (.parity j) r) (hpe : lcr.pe = true) (h12 : 12 ≤ j)
    (hj : j < 16) (pending : Bool) :
    RxAt lcr b ((Phase.parity j).next lcr pending) (r.tick lcr ((Phase.parity j).line lcr b)) := by
  obtain ⟨hsh, -, hpar, hxor, herr⟩ := h.holds
  obtain ⟨hs, hc⟩ := h.cases (x := .wait1) (by simp only [Phase.rstate]; grind) (by decide)
  have hne : tock j ≠ 0 := by
    rw [Ne, tock_eq_zero hj]
    omega
  by_cases h15 : j = 15
  · subst h15
    have hp : lcr.pushTick = 9 := by simp [Lcr.pushTick, hpe]
    simp only [Phase.next, if_true]
    refine ⟨?_, fun _ => ?_, ?_, fun hf => ?_, ?_, ?_⟩ <;>
      simp only [Receiver.tick, hs, hc, Phase.rtick, hne, if_false]
    · simp [Phase.rstate, hp, hpe]
    · simp
      decide
    · exact hsh
    · rw [hpe] at hf
      cases hf
    · exact fun _ => herr h12
    · omega
  · simp only [Phase.next, show j + 1 ≠ 16 by omega, if_false]
    refine ⟨?_, fun _ => ?_, ?_, ?_, ?_, ?_, ?_⟩ <;>
      simp only [Receiver.tick, hs, hc, Phase.rtick, hne, if_false]
    · simp only [Phase.rstate]
      grind
    · exact tock_sub_one hj
    · exact hsh
    · intro hj; omega
    · exact fun _ => hpar (by omega)
    · exact fun _ => hxor (by omega)
    · exact fun _ => herr h12

theorem RxAt.tick_parity (h : RxAt lcr b (.parity j) r) (hpe : lcr.pe = true) (hj : j < 16)
    (pending : Bool) :
    RxAt lcr b ((Phase.parity j).next lcr pending) (r.tick lcr ((Phase.parity j).line lcr b)) := by
  rcases (by omega : j ≤ 1 ∨ (2 ≤ j ∧ j ≤ 9) ∨ (j = 10 ∨ j = 11) ∨ 12 ≤ j) with h1 | h9 | h11 | h12
  · exact h.tick_parity_early hpe h1 pending
  · exact h.tick_recParity h9.1 h9.2 pending
  · exact h.tick_parity_check h11 pending
  · exact h.tick_parity_wait hpe h12 hj pending

theorem Phase.stop_line (lcr : Lcr) (b : BitVec 8) {j : ℕ} (hj : 0 < j) :
    (Phase.stop j).line lcr b = true := by
  obtain ⟨k, rfl⟩ := Nat.exists_eq_succ_of_ne_zero hj.ne'
  rfl

/-- The ticks of the stop field before the receiver looks at it. -/
theorem RxAt.tick_stop_early (h : RxAt lcr b (.stop j) r)
    (hj : j ≤ if lcr.pe then 0 else 1) (pending : Bool) :
    RxAt lcr b ((Phase.stop j).next lcr pending) (r.tick lcr ((Phase.stop j).line lcr b)) := by
  obtain ⟨hsh, hbc, herr, -⟩ := h.holds
  have hst := lcr.stopTicks_bounds
  have hnext : (Phase.stop j).next lcr pending = .stop (j + 1) := by
    rw [Phase.next, if_neg (by grind)]
  rw [hnext]
  by_cases hpe : lcr.pe = true
  · have hp : lcr.pushTick = 9 := by simp [Lcr.pushTick, hpe]
    obtain rfl : j = 0 := by grind
    obtain ⟨hs, hc⟩ := h.cases (x := .wait1) (by simp [Phase.rstate, hp, hpe]) (by decide)
    have hc : r.rcounter16 = 0 := by
      rw [hc, Phase.rtick, hpe]
      decide
    refine ⟨?_, fun _ => ?_, ?_, fun hf => ?_, ?_, ?_⟩ <;>
      simp only [Receiver.tick, hs, hc, if_true]
    · simp [Phase.rstate, hp, hpe]
    · simp [Phase.rtick, hpe]
      decide
    · exact hsh
    · exact absurd hpe (by simp [hf])
    · exact fun _ => herr (.inl hpe)
    · omega
  · have hp : lcr.pushTick = 10 := by simp [Lcr.pushTick, hpe]
    have hpe' : lcr.pe = false := by simpa using hpe
    rcases (by grind : j = 0 ∨ j = 1) with rfl | rfl
    · obtain ⟨hs, hc⟩ := h.cases (x := .recBit) (by simp [Phase.rstate, hp, hpe]) (by decide)
      rw [Receiver.tick_recBit_zero hs (by simpa [Phase.rtick] using hc)]
      refine ⟨?_, fun _ => ?_, hsh, fun _ _ => hbc hpe' (by omega), ?_, by omega⟩
      · simp [Phase.rstate, hp, hpe]
      · simp [Phase.rtick, hpe]
      · intro h2
        exact absurd h2 (by simp [hpe])
    · obtain ⟨hs, hc⟩ := h.cases (x := .endBit) (by simp [Phase.rstate, hp, hpe]) (by decide)
      refine ⟨?_, fun _ => ?_, ?_, fun _ hf => ?_, ?_, ?_⟩ <;>
        simp only [Receiver.tick, hs, hbc hpe' (le_refl _), hpe', if_true, Bool.false_eq_true,
          if_false]
      · simp [Phase.rstate, hp, hpe]
      · simp [Phase.rtick, hpe]
        decide
      · exact hsh
      · simp
      · omega

/-- The stop bit is looked at one tick before the push. -/
theorem RxAt.tick_recStop (h : RxAt lcr b (.stop j) r)
    (hj : (if lcr.pe then 0 else 1) < j) (hlt : j < lcr.pushTick) (pending : Bool) :
    RxAt lcr b ((Phase.stop j).next lcr pending) (r.tick lcr ((Phase.stop j).line lcr b)) := by
  obtain ⟨hsh, -, herr, -⟩ := h.holds
  have hst := lcr.stopTicks_bounds
  have hp := lcr.pushTick_bounds
  have hpush : lcr.pushTick = if lcr.pe then 9 else 10 := rfl
  have h0 : 0 < j := by grind
  have hrtick : ∀ k, 0 < k → (Phase.stop k).rtick lcr + lcr.pushTick = k + 10 := by
    intro k hk
    simp only [Phase.rtick]
    grind
  have hr := hrtick j h0
  have hr' := hrtick (j + 1) (by omega)
  have hnext : (Phase.stop j).next lcr pending = .stop (j + 1) := by
    rw [Phase.next, if_neg (by omega)]
  obtain ⟨hs, hc⟩ := h.cases (x := .recStop) (by simp only [Phase.rstate]; grind) (by decide)
  rw [hnext, Phase.stop_line lcr b h0]
  have hseven : tock ((Phase.stop j).rtick lcr) = 7 ↔ j + 1 = lcr.pushTick := by
    rw [tock_eq_seven (by omega)]
    omega
  refine ⟨?_, fun _ => ?_, ?_, fun _ hf => ?_, ?_, fun hf => ?_⟩ <;>
    simp only [Receiver.tick, hs, hc, hseven]
  · simp only [Phase.rstate]
    grind
  · rw [tock_sub_one (by omega)]
    congr 1
    omega
  · exact hsh
  · omega
  · exact fun _ => herr (by grind)
  · rw [if_pos (by omega)]
    rfl

theorem RxAt.tick_stop (h : RxAt lcr b (.stop j) r) (pending : Bool) :
    RxAt lcr b ((Phase.stop j).next lcr pending) (r.tick lcr ((Phase.stop j).line lcr b)) := by
  have hst := lcr.stopTicks_bounds
  have hp := lcr.pushTick_bounds
  obtain ⟨hsh, -, herr, hfr⟩ := h.holds
  rcases lt_trichotomy j lcr.pushTick with hlt | heq | hgt
  · by_cases hj : j ≤ if lcr.pe then 0 else 1
    · exact h.tick_stop_early hj pending
    · exact h.tick_recStop (by omega) hlt pending
  · obtain ⟨hs, hc⟩ := h.cases (x := .push) (by simp [Phase.rstate, heq]) (by decide)
    have hx : (Phase.stop (j + 1)).rstate lcr = .idle := by
      simp only [Phase.rstate]
      grind
    rw [Phase.next, if_neg (by omega), Phase.stop_line lcr b (by omega)]
    refine ⟨?_, fun hne => absurd hx hne, ?_, fun _ hf => ?_, ?_, ?_⟩ <;>
      simp only [Receiver.tick, hs, Bool.true_or, if_true]
    · exact hx.symm
    · exact hsh
    · omega
    · exact fun _ => herr (.inr (by omega))
    · exact fun _ => hfr heq.ge
  · have hs : r.rstate = .idle := by
      rw [h.rstate]
      simp only [Phase.rstate]
      grind
    have hx : ∀ k, lcr.pushTick < k → (Phase.stop k).rstate lcr = .idle := by
      intro k hk
      simp only [Phase.rstate]
      grind
    rw [Phase.stop_line lcr b (by omega)]
    simp only [Phase.next]
    split
    · refine ⟨?_, fun hne => absurd rfl hne, trivial⟩
      simp [Receiver.tick, hs]
      rfl
    · refine ⟨?_, fun hne => absurd (hx _ (by omega)) hne, ?_, fun _ hf => ?_, ?_, ?_⟩ <;>
        simp only [Receiver.tick, hs]
      · rw [hx _ (by omega)]
        simp
      · exact hsh
      · omega
      · exact fun _ => herr (.inr (by omega))
      · exact fun _ => hfr (by omega)

theorem RxAt.tick_idle {p : Phase} (h : RxAt lcr b p r) (hp : p = .idle ∨ p = .pop)
    (pending : Bool) (b' : BitVec 8) :
    RxAt lcr b' (p.next lcr pending) (r.tick lcr (p.line lcr b)) := by
  have hs : r.rstate = .idle := by
    rw [h.rstate]
    rcases hp with rfl | rfl <;> rfl
  have hl : p.line lcr b = true := by
    rcases hp with rfl | rfl <;> rfl
  have hs' : (r.tick lcr true).rstate = .idle := by simp [Receiver.tick, hs]
  rw [hl]
  rcases hp with rfl | rfl
  · simp only [Phase.next]
    split
    · exact ⟨hs', fun hne => absurd rfl hne, trivial⟩
    · exact ⟨hs', fun hne => absurd rfl hne, trivial⟩
  · exact ⟨hs', fun hne => absurd rfl hne, trivial⟩

/-- STEP: a tick leads to the next place. At the edge of the start bit no break may be seen. -/
theorem RxAt.tick {p : Phase} (h : RxAt lcr b p r) (hv : p.Valid lcr)
    (hb : p = .start 1 → r.counterB ≠ 0) (pending : Bool) :
    RxAt lcr b (p.next lcr pending) (r.tick lcr (p.line lcr b)) := by
  cases p with
  | idle => exact h.tick_idle (.inl rfl) pending b
  | pop => exact h.tick_idle (.inr rfl) pending b
  | start j => exact h.tick_start hv (fun hj => hb (hj ▸ rfl)) pending
  | bit i j => exact h.tick_bit hv.1 hv.2 pending
  | parity j => exact h.tick_parity hv.1 hv.2 pending
  | stop j => exact h.tick_stop pending

/-- FRAME: the FIFO, the break counter and `rf_push_q` are not part of a place. -/
theorem RxAt.frame {p : Phase} (h : RxAt lcr b p r) (f : Rfifo) (c : BitVec 8) (x : Bool) :
    RxAt lcr b p { r with fifo := f, counterB := c, rfPushQ := x } := by
  refine ⟨h.rstate, h.rcounter, ?_⟩
  cases p <;> exact h.holds

/-! ### The push -/

theorem Phase.rstate_eq_push {p : Phase} (h : p.rstate lcr = .push) : p = .stop lcr.pushTick := by
  cases p with
  | bit i j => cases i <;> simp only [Phase.rstate] at h <;> grind
  | stop j => simp only [Phase.rstate] at h; grind
  | _ => simp only [Phase.rstate] at h; grind

/-- A push that is over in the idle state is raised again by `sr_push` only. -/
theorem Receiver.tick_rfPush (hq : r.rfPush = true → r.rstate = .idle) {x : Bool}
    (h : (r.tick lcr x).rfPush = true) : r.rstate = .push := by
  by_contra hne
  have hf : r.rstate ≠ .idle → r.rfPush = false := fun hne => by
    by_contra ht
    exact hne (hq (by simpa using ht))
  cases hs : r.rstate <;> simp only [Receiver.tick, hs] at h hne hf <;> grind

/-- The push hands over the word without an error. -/
theorem RxAt.tick_push (h : RxAt lcr b (.stop lcr.pushTick) r) (hb : r.counterB ≠ 0) :
    (r.tick lcr true).rfPush = true ∧ (r.tick lcr true).rfDataIn = item lcr b := by
  obtain ⟨hsh, -, herr, hfr⟩ := h.holds
  have hs : r.rstate = .push := by
    rw [h.rstate]
    simp [Phase.rstate]
  have hbreak : r.breakError = false := by simpa [Receiver.breakError] using hb
  have hp := lcr.pushTick_bounds
  refine ⟨by simp [Receiver.tick, hs], ?_⟩
  simp only [Receiver.tick, hs, hbreak, Bool.true_or, if_true, Bool.false_eq_true, if_false,
    Receiver.recWord, hsh, herr (.inr (by omega)), hfr (le_refl _)]
  rfl

end RxAt

end DsdOrsoc.Uart
