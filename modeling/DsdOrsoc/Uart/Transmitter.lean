import DsdOrsoc.Schemes.Bits
import DsdOrsoc.Uart.Fifo
import DsdOrsoc.Uart.Frame

/-! The transmitter `uart_transmitter`. All registers but the FIFO move with the baud enable;
    `tf_pop` is set for one clock. `TxAt` says that the registers are those of a place in the frame
    of a byte, and STEP (`TxAt.tick`) that a tick leads to the next place. INVARIANT (`Sends`): with
    the FIFO, every byte is loaded once and in order, whatever the ticks and the pushes. -/

namespace DsdOrsoc.Uart
open Schemes

/-- `s_idle`, `s_send_start`, `s_send_byte`, `s_send_parity`, `s_send_stop`, `s_pop_byte`. -/
inductive TState where | idle | sendStart | sendByte | sendParity | sendStop | popByte
  deriving DecidableEq

structure Transmitter where
  fifo : Tfifo
  tstate : TState
  counter : BitVec 5
  bitCounter : BitVec 3
  shiftOut : BitVec 7
  stxOTmp : Bool
  parityXor : Bool
  tfPop : Bool
  bitOut : Bool

structure TransmitterIn where
  lcr : Lcr
  tfPush : Bool
  wbDatI : BitVec 8
  enable : Bool
  txReset : Bool
  lsrMask : Bool

/-- The last bit of a word, as a preset of `bit_counter` and `rbit_counter`. -/
def lastBit (lcr : Lcr) : BitVec 3 :=
  match lcr.bits with
  | 0b00 => 0b100
  | 0b01 => 0b101
  | 0b10 => 0b110
  | _ => 0b111

theorem toNat_lastBit (lcr : Lcr) : (lastBit lcr).toNat + 1 = lcr.wordLength := by
  unfold lastBit Lcr.wordLength
  generalize lcr.bits = x
  revert x
  decide

namespace Transmitter

variable (s : Transmitter) (lcr : Lcr)

/-- `parity_xor` of the byte at the head of the FIFO. -/
def dataXor : Bool :=
  match lcr.bits with
  | 0b00 => xorBits (s.fifo.dataOut.extractLsb' 0 5)
  | 0b01 => xorBits (s.fifo.dataOut.extractLsb' 0 6)
  | 0b10 => xorBits (s.fifo.dataOut.extractLsb' 0 7)
  | _ => xorBits (s.fifo.dataOut.extractLsb' 0 8)

/-- The preset of the stop field. -/
def stopPreset : BitVec 5 :=
  match lcr.sb, lcr.bits with
  | false, _ => 0b01101
  | true, 0b00 => 0b10101
  | true, _ => 0b11101

/-- The counter of a field is preset from zero and runs down to one, where the field ends. -/
def countDown (preset : BitVec 5) (last : Transmitter) : Transmitter :=
  if s.counter = 0 then { s with counter := preset }
  else if s.counter = 1 then { last with counter := 0 }
  else { s with counter := s.counter - 1 }

def sendStart : Transmitter :=
  let s := { s with tfPop := false, stxOTmp := false }
  s.countDown 0b01111 { s with tstate := .sendByte }

def sendByte : Transmitter :=
  let s := { s with stxOTmp := s.bitOut }
  s.countDown 0b01111
    (if 0 < s.bitCounter then
      { s with
        bitCounter := s.bitCounter - 1
        -- bit 6 keeps its value
        shiftOut := s.shiftOut.extractLsb' 6 1 ++ s.shiftOut.extractLsb' 1 6
        bitOut := s.shiftOut.getLsbD 0
        tstate := .sendByte }
    else if !lcr.pe then { s with tstate := .sendStop }
    else { s with bitOut := parityBit lcr s.parityXor, tstate := .sendParity })

def sendParity : Transmitter :=
  let s := { s with stxOTmp := s.bitOut }
  s.countDown 0b01111 { s with tstate := .sendStop }

def sendStop : Transmitter :=
  let s := { s with stxOTmp := true }
  s.countDown (stopPreset lcr) { s with tstate := .idle }

/-- The state machine at a tick of the baud enable. -/
def tick : Transmitter :=
  match s.tstate with
  | .idle =>
    if s.fifo.ptrs.count = 0 then { s with tstate := .idle, stxOTmp := true }
    else { s with tfPop := false, stxOTmp := true, tstate := .popByte }
  | .popByte =>
    { s with
      tfPop := true
      bitCounter := lastBit lcr
      parityXor := s.dataXor lcr
      shiftOut := s.fifo.dataOut.extractLsb' 1 7
      bitOut := s.fifo.dataOut.getLsbD 0
      tstate := .sendStart }
  | .sendStart => s.sendStart
  | .sendByte => s.sendByte lcr
  | .sendParity => s.sendParity
  | .sendStop => s.sendStop lcr

/-- The pins of the FIFO. -/
@[simps] def fifoIn (i : TransmitterIn) : FifoIn (BitVec 8) where
  push := i.tfPush
  pop := s.tfPop
  fifoReset := i.txReset
  resetStatus := i.lsrMask
  dataIn := i.wbDatI

/-- One rising edge of the clock. -/
def clk (i : TransmitterIn) : Transmitter :=
  { (if i.enable then s.tick i.lcr else { s with tfPop := false }) with
    fifo := s.fifo.clk (s.fifoIn i) }

/-- `stx_pad_o`. -/
def stxPadO : Bool := if lcr.bc then false else s.stxOTmp

end Transmitter

/-! ### Places in the frame -/

/-- The counter of a field of `m` ticks at its tick `j`. -/
def fieldCounter (m j : ℕ) : BitVec 5 := if j = 0 then 0 else BitVec.ofNat 5 (m - j)

theorem fieldCounter_zero (m : ℕ) : fieldCounter m 0 = 0 := rfl

theorem fieldCounter_of_pos (m : ℕ) {j : ℕ} (hj : 0 < j) :
    fieldCounter m j = BitVec.ofNat 5 (m - j) :=
  if_neg (by omega)

/-- The state of the transmitter at a place. -/
def Phase.tstate : Phase → TState
  | idle => .idle
  | pop => .popByte
  | start _ => .sendStart
  | bit .. => .sendByte
  | parity _ => .sendParity
  | stop _ => .sendStop

theorem Phase.tstate_eq_popByte {p : Phase} : p.tstate = .popByte ↔ p = .pop := by
  cases p <;> simp [tstate]

/-- The counter of the transmitter at a place. -/
def Phase.counter (lcr : Lcr) : Phase → BitVec 5
  | idle | pop => 0
  | start j | bit _ j | parity j => fieldCounter 16 j
  | stop j => fieldCounter lcr.stopTicks j

/-- Bit `i` of the byte is next in the shift register. -/
structure TxLoaded (lcr : Lcr) (b : BitVec 8) (i : ℕ) (s : Transmitter) : Prop where
  bitOut : s.bitOut = b.getLsbD i
  shiftOut : ∀ k, i + 1 + k < 8 → s.shiftOut.getLsbD k = b.getLsbD (i + 1 + k)
  bitCounter : s.bitCounter.toNat + i + 1 = lcr.wordLength
  parityXor : s.parityXor = xorBits (word lcr b)

/-- What the transmitter holds of the byte at a place. -/
def Phase.TxHolds (lcr : Lcr) (b : BitVec 8) (s : Transmitter) : Phase → Prop
  | start _ => TxLoaded lcr b 0 s
  | bit i _ => TxLoaded lcr b i s
  | parity _ => s.bitOut = parityBit lcr (xorBits (word lcr b))
  | _ => True

/-- The transmitter is at a place in the frame of a byte. -/
structure TxAt (lcr : Lcr) (b : BitVec 8) (p : Phase) (s : Transmitter) : Prop where
  valid : p.Valid lcr
  tstate : s.tstate = p.tstate
  counter : s.counter = p.counter lcr
  line : s.stxOTmp = p.line lcr b
  holds : p.TxHolds lcr b s

namespace Transmitter

variable {s : Transmitter} {lcr : Lcr}

/-- SPEC of the field counter. -/
theorem countDown_eq {m j : ℕ} (hc : s.counter = fieldCounter m j) (hj : j < m) (hm : 2 ≤ m)
    (hm' : m ≤ 31) (preset : BitVec 5) (hp : preset = BitVec.ofNat 5 (m - 1)) (last : Transmitter) :
    s.countDown preset last =
      if j + 1 = m then { last with counter := 0 }
      else { s with counter := fieldCounter m (j + 1) } := by
  have h1 : ∀ n < 32, n ≠ 0 → BitVec.ofNat 5 n ≠ 0 := by decide
  have h2 : ∀ n < 32, n ≠ 1 → BitVec.ofNat 5 n ≠ 1 := by decide
  have h3 : ∀ n < 31, BitVec.ofNat 5 (n + 1) - 1 = BitVec.ofNat 5 n := by decide
  unfold countDown
  rw [hc]
  rcases Nat.eq_zero_or_pos j with rfl | hpos
  · rw [fieldCounter_zero, if_pos rfl, if_neg (by omega), hp]
    rfl
  · rw [fieldCounter_of_pos m hpos, if_neg (h1 _ (by omega) (by omega))]
    by_cases hlast : j + 1 = m
    · rw [if_pos hlast, if_pos (by rw [← hlast, Nat.add_sub_cancel_left]; rfl)]
    · rw [if_neg hlast, if_neg (h2 _ (by omega) (by omega)), fieldCounter_of_pos m (by omega),
        show m - j = m - (j + 1) + 1 by omega, h3 _ (by omega)]

theorem stopPreset_eq (lcr : Lcr) : stopPreset lcr = BitVec.ofNat 5 (lcr.stopTicks - 1) := by
  unfold stopPreset Lcr.stopTicks
  generalize lcr.bits = x, lcr.sb = y
  revert x y
  decide

theorem dataXor_eq (s : Transmitter) (lcr : Lcr) :
    s.dataXor lcr = xorBits (word lcr s.fifo.dataOut) := by
  have h : ∀ x : BitVec 2, x = 0 ∨ x = 1 ∨ x = 2 ∨ x = 3 := by decide
  unfold dataXor word Lcr.wordLength
  rcases h lcr.bits with h | h | h | h <;> rw [h] <;>
    simp [xorBits, List.range_succ, getLsbD_gathered]

end Transmitter

section TxAt

variable {lcr : Lcr} {b : BitVec 8} {s : Transmitter}

theorem TxLoaded.of_eq {i : ℕ} (h : TxLoaded lcr b i s) {s' : Transmitter}
    (h1 : s'.bitOut = s.bitOut) (h2 : s'.shiftOut = s.shiftOut) (h3 : s'.bitCounter = s.bitCounter)
    (h4 : s'.parityXor = s.parityXor) : TxLoaded lcr b i s' :=
  ⟨h1.trans h.bitOut, fun k hk => by rw [h2]; exact h.shiftOut k hk, by rw [h3]; exact h.bitCounter,
    h4.trans h.parityXor⟩

/-- The byte at the head of the FIFO is loaded. -/
theorem TxAt.tick_pop (h : TxAt lcr b .pop s) :
    TxAt lcr s.fifo.dataOut (.start 0) (s.tick lcr) := by
  have hs : s.tstate = .popByte := h.tstate
  have hl : s.stxOTmp = true := h.line
  refine ⟨Nat.zero_lt_succ _, by simp [Transmitter.tick, hs]; rfl, ?_, ?_, ?_, ?_, ?_, ?_⟩ <;>
    simp only [Transmitter.tick, hs]
  · exact h.counter
  · exact hl
  · intro k hk
    rw [BitVec.getLsbD_extractLsb']
    simp [show k < 7 by omega, Nat.add_comm]
  · rw [Nat.add_zero]
    exact toNat_lastBit lcr
  · exact s.dataXor_eq lcr

theorem TxAt.tick_start {j : ℕ} (h : TxAt lcr b (.start j) s) (pending : Bool) :
    TxAt lcr b ((Phase.start j).next lcr pending) (s.tick lcr) := by
  have hs : s.tstate = .sendStart := h.tstate
  have hh : TxLoaded lcr b 0 s := h.holds
  have htick : s.tick lcr = s.sendStart := by simp only [Transmitter.tick, hs]
  have hl := Phase.line_next lcr b h.valid pending
  have hv := h.valid.next lcr pending
  have hend := Transmitter.countDown_eq (s := { s with tfPop := false, stxOTmp := false }) h.counter
    h.valid (by omega) (by omega) 0b01111 rfl
  simp only [htick, Transmitter.sendStart, hend]
  simp only [Phase.next] at hl hv ⊢
  split_ifs at hl hv ⊢
  · exact ⟨hv, rfl, rfl, hl.symm, hh.of_eq rfl rfl rfl rfl⟩
  · exact ⟨hv, hs, rfl, hl.symm, hh.of_eq rfl rfl rfl rfl⟩

/-- The next bit moves up. -/
theorem TxLoaded.shift {i : ℕ} (h : TxLoaded lcr b i s) (hi : i + 1 < lcr.wordLength)
    {s' : Transmitter} (h1 : s'.bitOut = s.shiftOut.getLsbD 0)
    (h2 : s'.shiftOut = s.shiftOut.extractLsb' 6 1 ++ s.shiftOut.extractLsb' 1 6)
    (h3 : s'.bitCounter = s.bitCounter - 1) (h4 : s'.parityXor = s.parityXor) :
    TxLoaded lcr b (i + 1) s' := by
  have hn := lcr.wordLength_le
  have hc := h.bitCounter
  refine ⟨?_, ?_, ?_, h4.trans h.parityXor⟩
  · rw [h1, h.shiftOut 0 (by omega)]
  · intro k hk
    have hb : s.shiftOut.getLsbD (1 + k) = b.getLsbD (i + 1 + 1 + k) := by
      rw [h.shiftOut (1 + k) (by omega)]
      congr 1
      omega
    rw [h2, BitVec.getLsbD_append, if_pos (by omega), BitVec.getLsbD_extractLsb', hb]
    simp [show k < 6 by omega]
  · have hne : s.bitCounter ≠ 0 := by
      intro h0
      rw [h0] at hc
      simp at hc
      omega
    have := toNat_sub_one hne
    rw [h3]
    omega

theorem TxAt.tick_bit {i j : ℕ} (h : TxAt lcr b (.bit i j) s) (pending : Bool) :
    TxAt lcr b ((Phase.bit i j).next lcr pending) (s.tick lcr) := by
  have hs : s.tstate = .sendByte := h.tstate
  have hh : TxLoaded lcr b i s := h.holds
  have htick : s.tick lcr = s.sendByte lcr := by simp only [Transmitter.tick, hs]
  have hl := Phase.line_next lcr b h.valid pending
  have hv := h.valid.next lcr pending
  have hmore : 0 < s.bitCounter ↔ i + 1 < lcr.wordLength := by
    have := hh.bitCounter
    rw [BitVec.lt_def]
    simp only [BitVec.ofNat_eq_ofNat, BitVec.toNat_ofNat, Nat.zero_mod]
    omega
  have hend := Transmitter.countDown_eq (s := { s with stxOTmp := s.bitOut }) h.counter h.valid.2
    (by omega) (by omega) 0b01111 rfl
  simp only [htick, Transmitter.sendByte, hend, hmore, Bool.not_eq_true']
  simp only [Phase.next] at hl hv ⊢
  split_ifs at hl hv ⊢ with h1 h2 h3 h4
  · exact ⟨hv, rfl, rfl, hh.bitOut.trans hl.symm, hh.shift h2 rfl rfl rfl rfl⟩
  · rw [h4] at h3
    cases h3
  · refine ⟨hv, rfl, rfl, hh.bitOut.trans hl.symm, ?_⟩
    exact congrArg (parityBit lcr) hh.parityXor
  · exact ⟨hv, rfl, rfl, hh.bitOut.trans hl.symm, trivial⟩
  · exact absurd (by simpa using h3) ‹_›
  · exact ⟨hv, hs, rfl, hh.bitOut.trans hl.symm, hh.of_eq rfl rfl rfl rfl⟩

theorem TxAt.tick_parity {j : ℕ} (h : TxAt lcr b (.parity j) s) (pending : Bool) :
    TxAt lcr b ((Phase.parity j).next lcr pending) (s.tick lcr) := by
  have hs : s.tstate = .sendParity := h.tstate
  have hh : s.bitOut = parityBit lcr (xorBits (word lcr b)) := h.holds
  have htick : s.tick lcr = s.sendParity := by simp only [Transmitter.tick, hs]
  have hl := Phase.line_next lcr b h.valid pending
  have hv := h.valid.next lcr pending
  have hend := Transmitter.countDown_eq (s := { s with stxOTmp := s.bitOut }) h.counter h.valid.2
    (by omega) (by omega) 0b01111 rfl
  simp only [htick, Transmitter.sendParity, hend]
  simp only [Phase.next] at hl hv ⊢
  split_ifs at hl hv ⊢
  · exact ⟨hv, rfl, rfl, hh.trans hl.symm, trivial⟩
  · exact ⟨hv, hs, rfl, hh.trans hl.symm, hh⟩

theorem TxAt.tick_stop {j : ℕ} (h : TxAt lcr b (.stop j) s) (pending : Bool) :
    TxAt lcr b ((Phase.stop j).next lcr pending) (s.tick lcr) := by
  have hs : s.tstate = .sendStop := h.tstate
  have htick : s.tick lcr = s.sendStop lcr := by simp only [Transmitter.tick, hs]
  have hl := Phase.line_next lcr b h.valid pending
  have hv := h.valid.next lcr pending
  have hm := lcr.stopTicks_bounds
  have hend := Transmitter.countDown_eq (s := { s with stxOTmp := true }) h.counter h.valid
    (by omega) (by omega) _ (Transmitter.stopPreset_eq lcr)
  simp only [htick, Transmitter.sendStop, hend]
  simp only [Phase.next] at hl hv ⊢
  split_ifs at hl hv ⊢
  · exact ⟨hv, rfl, rfl, hl.symm, trivial⟩
  · exact ⟨hv, hs, rfl, hl.symm, trivial⟩

theorem TxAt.tick_idle (h : TxAt lcr b .idle s) :
    TxAt lcr b (Phase.idle.next lcr (s.fifo.ptrs.count != 0)) (s.tick lcr) := by
  have hs : s.tstate = .idle := h.tstate
  have hc : s.counter = 0 := h.counter
  simp only [Transmitter.tick, hs, Phase.next, bne_iff_ne, ne_eq, ite_not]
  split
  · exact ⟨trivial, rfl, hc, rfl, trivial⟩
  · exact ⟨trivial, rfl, hc, rfl, trivial⟩

/-- STEP: a tick leads to the next place, with a new byte after `pop`. -/
theorem TxAt.tick {p : Phase} (h : TxAt lcr b p s) (hp : p ≠ .pop) :
    TxAt lcr b (p.next lcr (s.fifo.ptrs.count != 0)) (s.tick lcr) := by
  cases p with
  | idle => exact h.tick_idle
  | pop => exact absurd rfl hp
  | start j => exact h.tick_start _
  | bit i j => exact h.tick_bit _
  | parity j => exact h.tick_parity _
  | stop j => exact h.tick_stop _

/-- FRAME: neither the FIFO nor `tf_pop` is part of a place. -/
theorem TxAt.frame {p : Phase} (h : TxAt lcr b p s) (f : Tfifo) (x : Bool) :
    TxAt lcr b p { s with fifo := f, tfPop := x } := by
  refine ⟨h.valid, h.tstate, h.counter, h.line, ?_⟩
  cases p with
  | start j => exact TxLoaded.of_eq h.holds rfl rfl rfl rfl
  | bit i j => exact TxLoaded.of_eq h.holds rfl rfl rfl rfl
  | _ => exact h.holds

/-- `tf_pop` rises when a byte is loaded. -/
theorem Transmitter.tick_tfPop (hq : s.tfPop = true → s.tstate = .sendStart)
    (h : (s.tick lcr).tfPop = true) : s.tstate = .popByte := by
  by_contra hne
  have hf : s.tstate ≠ .sendStart → s.tfPop = false := fun hne => by
    by_contra ht
    exact hne (hq (by simpa using ht))
  cases hs : s.tstate <;> simp only [Transmitter.tick, hs, Transmitter.sendStart,
    Transmitter.sendByte, Transmitter.sendParity, Transmitter.sendStop, Transmitter.countDown]
    at h hne hf <;> grind

end TxAt

/-! ### The transmitter with its FIFO -/

/-- A place in a frame, the byte of the frame, and the bytes in the FIFO. -/
structure Sending where
  phase : Phase
  byte : BitVec 8
  queue : List (BitVec 8)

/-- One clock edge. -/
def Sending.next (l : Sending) (s : Transmitter) (i : TransmitterIn) : Sending where
  phase := if i.enable then l.phase.next i.lcr (s.fifo.ptrs.count != 0) else l.phase
  byte :=
    match i.enable, l.phase with
    | true, .pop => s.fifo.dataOut
    | _, _ => l.byte
  queue := queueNext l.queue (s.fifoIn i)

theorem Sending.next_byte {l : Sending} (hp : l.phase ≠ .pop) {s : Transmitter}
    {i : TransmitterIn} : (l.next s i).byte = l.byte := by
  simp only [Sending.next]
  split
  · next hpop => exact absurd hpop hp
  · rfl

/-- The bytes that are not loaded: the first byte of the FIFO is, while it is popped. -/
def Sending.waiting (l : Sending) (tfPop : Bool) : List (BitVec 8) :=
  if tfPop then l.queue.tail else l.queue

/-- The bytes pushed in a cycle. -/
def TransmitterIn.new (i : TransmitterIn) : List (BitVec 8) := if i.tfPush then [i.wbDatI] else []

/-- INVARIANT: the registers are those of the place, and the FIFO is popped once for a byte. -/
structure Sends (lcr : Lcr) (l : Sending) (s : Transmitter) : Prop where
  place : TxAt lcr l.byte l.phase s
  queue : s.fifo.Rep l.queue
  popping : s.tfPop = true → l.phase = .start 0 ∧ l.queue ≠ []
  pending : l.phase = .pop → l.queue ≠ []

/-- A fixed format, no reset, and no push on a full FIFO. -/
structure Transmitter.Feeds (s : Transmitter) (i : TransmitterIn) (lcr : Lcr) : Prop where
  lcr : i.lcr = lcr
  txReset : i.txReset = false
  push : i.tfPush = true → s.fifo.ptrs.count ≠ 16

section Sends

variable {lcr : Lcr} {l : Sending} {s : Transmitter} {i : TransmitterIn}

theorem Sends.tfPop_eq_false (h : Sends lcr l s) (hp : l.phase ≠ .start 0) : s.tfPop = false := by
  by_contra ht
  exact hp (h.popping (by simpa using ht)).1

/-- A pop rises at one place only. -/
theorem Sends.tick_tfPop (h : Sends lcr l s) : (s.tick lcr).tfPop = true ↔ l.phase = .pop := by
  rw [← Phase.tstate_eq_popByte, ← h.place.tstate]
  constructor
  · refine Transmitter.tick_tfPop fun hpop => ?_
    rw [h.place.tstate, (h.popping hpop).1]
    rfl
  · intro hs
    simp only [Transmitter.tick, hs]

theorem Sends.clk_tfPop (h : Sends lcr l s) (hi : s.Feeds i lcr) :
    (s.clk i).tfPop = true ↔ i.enable = true ∧ l.phase = .pop := by
  rw [← h.tick_tfPop]
  cases he : i.enable <;> simp [Transmitter.clk, he, hi.lcr]

/-- The FIFO after a clock edge. -/
theorem Sends.queue_next (h : Sends lcr l s) (hi : s.Feeds i lcr) :
    (s.fifo.clk (s.fifoIn i)).Rep (l.next s i).queue ∧
      (l.next s i).queue = l.waiting s.tfPop ++ i.new := by
  have hpop : s.tfPop = true → s.fifo.ptrs.count ≠ 0 := fun hp h0 =>
    (h.popping hp).2 (h.queue.1.count_eq_zero.1 h0)
  exact ⟨h.queue.clk (keeps_of_legal hi.push hpop _ _),
    queueNext_of_legal h.queue.1 hi.txReset hi.push⟩

/-- The place after a clock edge. -/
theorem Sends.place_next (h : Sends lcr l s) (hi : s.Feeds i lcr) :
    TxAt lcr (l.next s i).byte (l.next s i).phase (s.clk i) := by
  cases he : i.enable with
  | false =>
    have hphase : (l.next s i).phase = l.phase := by simp [Sending.next, he]
    have hbyte : (l.next s i).byte = l.byte := by simp [Sending.next, he]
    have hclk : s.clk i = { s with fifo := s.fifo.clk (s.fifoIn i), tfPop := false } := by
      simp [Transmitter.clk, he]
    rw [hphase, hbyte, hclk]
    exact h.place.frame _ _
  | true =>
    have hphase : (l.next s i).phase = l.phase.next lcr (s.fifo.ptrs.count != 0) := by
      simp [Sending.next, he, hi.lcr]
    have hclk : s.clk i = { s.tick lcr with fifo := s.fifo.clk (s.fifoIn i) } := by
      simp [Transmitter.clk, he, hi.lcr]
    rw [hphase, hclk]
    by_cases hp : l.phase = .pop
    · have hbyte : (l.next s i).byte = s.fifo.dataOut := by simp [Sending.next, he, hp]
      rw [hbyte, hp]
      exact (hp ▸ h.place).tick_pop.frame _ _
    · rw [Sending.next_byte hp]
      exact (h.place.tick hp).frame _ _

/-- STEP. -/
theorem Sends.clk (h : Sends lcr l s) (hi : s.Feeds i lcr) : Sends lcr (l.next s i) (s.clk i) := by
  obtain ⟨hrep, hqueue⟩ := h.queue_next hi
  have hne : l.phase = .pop ∨ l.phase = .idle → l.queue ≠ [] → (l.next s i).queue ≠ [] := by
    intro hp hq
    have hno : s.tfPop = false := h.tfPop_eq_false (by rcases hp with hp | hp <;> simp [hp])
    rw [hqueue, hno]
    simp [Sending.waiting, hq]
  refine ⟨h.place_next hi, hrep, ?_, ?_⟩
  · intro hpop
    obtain ⟨he, hp⟩ := (h.clk_tfPop hi).1 hpop
    exact ⟨by simp [Sending.next, he, hp, Phase.next], hne (.inl hp) (h.pending hp)⟩
  · intro hp
    cases he : i.enable with
    | false =>
      have hp' : l.phase = .pop := by simpa [Sending.next, he] using hp
      exact hne (.inl hp') (h.pending hp')
    | true =>
      have hnext : l.phase.next lcr (s.fifo.ptrs.count != 0) = .pop := by
        simpa [Sending.next, he, hi.lcr] using hp
      obtain ⟨hidle, hcount⟩ := Phase.next_eq_pop lcr hnext
      refine hne (.inr hidle) fun h0 => ?_
      simp [h.queue.1.count_eq_zero.2 h0] at hcount

/-- A byte leaves the waiting ones when it is loaded. -/
theorem Sends.waiting_next (h : Sends lcr l s) (hi : s.Feeds i lcr) :
    l.waiting s.tfPop ++ i.new =
      (if i.enable = true ∧ l.phase = .pop then [(l.next s i).byte] else []) ++
        (l.next s i).waiting (s.clk i).tfPop := by
  have hqueue := (h.queue_next hi).2
  by_cases hpop : i.enable = true ∧ l.phase = .pop
  · obtain ⟨he, hp⟩ := hpop
    obtain ⟨y, ys, hq⟩ := List.exists_cons_of_ne_nil (h.pending hp)
    have hbyte : (l.next s i).byte = y := by
      simpa [Sending.next, he, hp] using h.queue.head (x := y) (by rw [hq]; rfl)
    have hno : s.tfPop = false := h.tfPop_eq_false (by simp [hp])
    rw [Sending.waiting, Sending.waiting, hqueue, (h.clk_tfPop hi).2 ⟨he, hp⟩, hno, hbyte]
    simp [Sending.waiting, he, hp, hq]
  · have hno : (s.clk i).tfPop = false := by
      by_contra ht
      exact hpop ((h.clk_tfPop hi).1 (by simpa using ht))
    rw [if_neg hpop, hno, List.nil_append]
    exact hqueue.symm

end Sends

end DsdOrsoc.Uart
