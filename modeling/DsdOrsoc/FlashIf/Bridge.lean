import DsdOrsoc.Schemes.Bits
import DsdOrsoc.Schemes.Machine

/-! The flash bridge `wb_flash_if`: one state machine turns a Wishbone access of 32 bits into one or
    two cycles of a 16-bit flash.

        reset ──▶ idle ──▶ check          (until FLASH_STS)
                   │         │
                   ├─────────┴▶ write0 ▶ write1 ─┬▶ writeNext ▶ writeNext0 ▶ write2 ▶ idle
                   │                              └──────────────────────────▲
                   └──────────▶ read0  ▶ read1  ─┬▶ readNext ▶ readNext0 ▶ readNext1 ▶ read2 ▶ idle
                                                  └──────────────────────────────────▲

    `sel = 0011` enters at `writeNext` and `readNext`, `sel = 1100` leaves by the short cut.
    INVARIANT (`Ok`): in every state the delay counters, the acknowledge and the write strobe are
    what the state says, whatever the bus does. -/

namespace DsdOrsoc.FlashIf
open Schemes

/-- `STH_*`. -/
inductive FState where
  | reset | idle | check | write0 | write1 | write2 | read0 | read1 | read2
  | readNext | readNext0 | readNext1 | writeNext | writeNext0
  deriving DecidableEq

/-- The fields of a Wishbone access. -/
structure Access where
  adr : BitVec 32
  sel : BitVec 4
  we : Bool
  dat : BitVec 32
  deriving DecidableEq

structure BridgeIn where
  cyc : Bool
  stb : Bool
  access : Access
  flashDI : BitVec 16
  flashSts : Bool

structure Bridge where
  wbDatO : BitVec 32
  wbAckO : Bool
  flashA : BitVec 22
  flashCeN : Bool
  flashOeN : Bool
  flashRpN : Bool
  flashDO : BitVec 16
  flashDTN : Bool
  flashSnByte : Bool
  flashSnWr : Bool
  readDelay : BitVec 5
  writeDelay : BitVec 5
  state : FState

/-- The parameters `WRITE_DELAY_COUNT` and `READ_DELAY_COUNT`. -/
structure Delays where
  write : ℕ
  read : ℕ

/-- The flash address of a half of a word. -/
def half (adr : BitVec 32) (low : Bool) : BitVec 22 := adr.extractLsb' 2 21 ++ BitVec.ofBool low

/-- The two bytes of a half-word change places. -/
def swap (x : BitVec 16) : BitVec 16 := x.extractLsb' 0 8 ++ x.extractLsb' 8 8

def BridgeIn.req (i : BridgeIn) : Bool := i.cyc && i.stb

def Access.sel01 (a : Access) : Bool := a.sel = 0b0011

def Access.sel23 (a : Access) : Bool := a.sel = 0b1100

namespace Bridge

variable (d : Delays) (s : Bridge) (i : BridgeIn)

/-- All registers after reset. -/
def init : Bridge where
  wbDatO := 0
  wbAckO := false
  flashA := 0
  flashCeN := true
  flashOeN := true
  flashRpN := false
  flashDO := 0
  flashDTN := true
  flashSnByte := true
  flashSnWr := true
  readDelay := 0
  writeDelay := 0
  state := .reset

/-- The access is begun when the flash is ready. -/
def launch : Bridge :=
  if i.access.we then
    { s with
      flashDTN := false
      state := if i.access.sel01 then .writeNext else .write0 }
  else { s with state := if i.access.sel01 then .readNext else .read0 }

/-- A cycle with the write strobe low, and the one that ends it. -/
def strobe (last : Bridge) : Bridge :=
  if d.write ≤ s.writeDelay.toNat then
    { last with flashCeN := false, flashSnWr := true, writeDelay := s.writeDelay + 1 }
  else { s with flashCeN := false, flashSnWr := false, writeDelay := s.writeDelay + 1 }

/-- A cycle of the read access time. -/
def access (next : FState) : Bridge :=
  { s with
    flashOeN := false
    flashCeN := false
    readDelay := s.readDelay + 1
    state := if d.read ≤ s.readDelay.toNat then next else s.state }

/-- One rising edge of the clock. -/
def clk : Bridge :=
  match s.state with
  | .reset => { s with flashRpN := true, state := if i.flashSts then .idle else .reset }
  | .idle =>
    if i.req then
      let s := { s with flashA := half i.access.adr i.access.sel01 }
      if i.flashSts then s.launch i else { s with state := .check }
    else s
  | .check => if i.flashSts then s.launch i else s
  | .write0 => { s with flashDO := swap (i.access.dat.extractLsb' 16 16), state := .write1 }
  | .write1 =>
    s.strobe d
      (if i.access.sel23 then { s with wbAckO := true, state := .write2 }
      else { s with state := .writeNext })
  | .writeNext =>
    { s with
      flashA := half i.access.adr true
      flashDO := swap (i.access.dat.extractLsb' 0 16)
      writeDelay := 0
      state := .writeNext0 }
  | .writeNext0 => s.strobe d { s with wbAckO := true, state := .write2 }
  | .write2 =>
    { s with
      flashCeN := true
      flashDTN := true
      writeDelay := 0
      wbAckO := false
      state := .idle }
  | .read0 => s.access d .read1
  | .read1 =>
    let s :=
      { s with
        flashCeN := true
        flashOeN := true
        wbDatO := swap i.flashDI ++ s.wbDatO.extractLsb' 0 16 }
    if i.access.sel23 then { s with readDelay := 0, wbAckO := true, state := .read2 }
    else { s with state := .readNext }
  | .readNext =>
    { s with flashA := half i.access.adr true, readDelay := 0, state := .readNext0 }
  | .readNext0 => s.access d .readNext1
  | .readNext1 =>
    { s with
      flashCeN := true
      flashOeN := true
      wbDatO := s.wbDatO.extractLsb' 16 16 ++ swap i.flashDI
      readDelay := 0
      wbAckO := true
      state := .read2 }
  | .read2 => { s with wbAckO := false, state := .idle }

/-- The bridge from reset, with any bus and any flash. -/
def machine : Machine Bridge BridgeIn where
  start s := s = init
  legal _ _ := True
  step := clk d

/-! ### What a state says -/

/-- INVARIANT of every run. -/
structure Ok : Prop where
  ack : s.wbAckO = decide (s.state = .write2 ∨ s.state = .read2)
  wr : s.flashSnWr =
    decide (¬ ((s.state = .write1 ∨ s.state = .writeNext0) ∧ s.writeDelay ≠ 0))
  writeDelay : s.writeDelay ≠ 0 →
    s.state = .write1 ∨ s.state = .writeNext ∨ s.state = .writeNext0 ∨ s.state = .write2
  readDelay : s.readDelay ≠ 0 →
    s.state = .read0 ∨ s.state = .read1 ∨ s.state = .readNext ∨ s.state = .readNext0 ∨
      s.state = .readNext1
  writeMax : s.state = .write1 ∨ s.state = .writeNext0 → s.writeDelay.toNat ≤ d.write
  readMax : s.state = .read0 ∨ s.state = .readNext0 → s.readDelay.toNat ≤ d.read

variable {d s i}

theorem toNat_add_one {x : BitVec 5} (h : x.toNat ≤ 30) : (x + 1).toNat = x.toNat + 1 := by
  rw [BitVec.toNat_add]
  exact Nat.mod_eq_of_lt (by simp; omega)

theorem add_one_ne_zero {x : BitVec 5} (h : x.toNat ≤ 30) : x + 1 ≠ 0 := by
  intro h0
  have := toNat_add_one h
  rw [h0] at this
  cases this

/-- A state with the strobe high, and with a delay only where a sequence goes on with it. -/
theorem ok_of_high (hack : s.wbAckO = decide (s.state = .write2 ∨ s.state = .read2))
    (hwr : s.flashSnWr = true)
    (hw : s.writeDelay = 0 ∨ s.state = .writeNext ∨ s.state = .write2)
    (hr : s.readDelay = 0 ∨ s.state = .read1 ∨ s.state = .readNext ∨ s.state = .readNext1) :
    s.Ok d where
  ack := hack
  wr := by rcases hw with hw | hw | hw <;> simp [hwr, hw]
  writeDelay hne := by
    rcases hw with hw | hw | hw
    · exact absurd hw hne
    · exact .inr (.inl hw)
    · exact .inr (.inr (.inr hw))
  readDelay hne := by
    rcases hr with hr | hr | hr | hr
    · exact absurd hr hne
    · exact .inr (.inl hr)
    · exact .inr (.inr (.inl hr))
    · exact .inr (.inr (.inr (.inr hr)))
  writeMax hs := by
    rcases hw with hw | hw | hw
    · simp [hw]
    · simp [hw] at hs
    · simp [hw] at hs
  readMax hs := by
    rcases hr with hr | hr | hr | hr
    · simp [hr]
    · simp [hr] at hs
    · simp [hr] at hs
    · simp [hr] at hs

theorem init_ok : init.Ok d := ok_of_high rfl rfl (.inl rfl) (.inl rfl)

theorem Ok.no_writeDelay (h : s.Ok d)
    (hs : s.state ∉ [FState.write1, .writeNext, .writeNext0, .write2]) : s.writeDelay = 0 := by
  by_contra hne
  exact hs (by simpa using h.writeDelay hne)

theorem Ok.no_readDelay (h : s.Ok d)
    (hs : s.state ∉ [FState.read0, .read1, .readNext, .readNext0, .readNext1]) :
    s.readDelay = 0 := by
  by_contra hne
  exact hs (by simpa using h.readDelay hne)

theorem Ok.clk_strobe (h : s.Ok d) (hw : d.write ≤ 30)
    (hs : s.state = .write1 ∨ s.state = .writeNext0) {last : Bridge}
    (hlast : last.wbAckO = decide (last.state = .write2))
    (hstate : last.state = .write2 ∨ last.state = .writeNext)
    (hrd : last.readDelay = s.readDelay) : (s.strobe d last).Ok d := by
  have hmax := h.writeMax hs
  have hne := add_one_ne_zero (hmax.trans hw)
  have hadd := toNat_add_one (hmax.trans hw)
  have hr0 : s.readDelay = 0 := by
    rcases hs with hs | hs <;> exact h.no_readDelay (by simp [hs])
  unfold strobe
  split
  · refine ok_of_high ?_ rfl (.inr hstate.symm) (.inl (hrd.trans hr0))
    rcases hstate with hst | hst <;> simp [hlast, hst]
  · next hlt =>
    -- the strobe is low, and the delay counts
    refine ⟨?_, ?_, fun _ => ?_, fun hr => absurd hr0 hr, fun _ => ?_, ?_⟩
    · exact h.ack
    · rcases hs with hs | hs <;> simpa [hs] using hne
    · rcases hs with hs | hs
      · exact .inl hs
      · exact .inr (.inr (.inl hs))
    · exact hadd.trans_le (by omega)
    · rcases hs with hs | hs <;> simp [hs]

theorem Ok.clk_access (h : s.Ok d) (hr : d.read ≤ 30)
    (hs : s.state = .read0 ∨ s.state = .readNext0) {next : FState}
    (hnext : next = .read1 ∨ next = .readNext1) : (s.access d next).Ok d := by
  have hadd := toNat_add_one ((h.readMax hs).trans hr)
  have hack : s.wbAckO = false := by rcases hs with hs | hs <;> simp [h.ack, hs]
  have hwr : s.flashSnWr = true := by rcases hs with hs | hs <;> simp [h.wr, hs]
  have hw0 : s.writeDelay = 0 := by
    rcases hs with hs | hs <;> exact h.no_writeDelay (by simp [hs])
  rw [access]
  split
  · refine ok_of_high ?_ hwr (.inl hw0) (.inr ?_)
    · rcases hnext with rfl | rfl <;> simp [hack]
    · rcases hnext with rfl | rfl <;> simp
  · next hlt =>
    refine ⟨h.ack, ?_, fun hne => absurd hw0 hne, fun _ => ?_, ?_, fun _ => ?_⟩
    · simp [hwr, hw0]
    · rcases hs with hs | hs
      · exact .inl hs
      · exact .inr (.inr (.inr (.inl hs)))
    · rcases hs with hs | hs <;> simp [hs]
    · exact hadd.trans_le (by omega)

/-- An access starts with both delays zero. -/
theorem Ok.launch (hack : s.wbAckO = false) (hwr : s.flashSnWr = true) (hw : s.writeDelay = 0)
    (hr : s.readDelay = 0) : (s.launch i).Ok d := by
  rw [Bridge.launch]
  split_ifs <;> exact ok_of_high (by simp [hack]) hwr (.inl hw) (.inl hr)

/-- STEP, whatever the bus does. -/
theorem Ok.clk (h : s.Ok d) (hw : d.write ≤ 30) (hr : d.read ≤ 30) : (s.clk d i).Ok d := by
  have hack := h.ack
  have hwr := h.wr
  have hw0 := h.no_writeDelay
  have hr0 := h.no_readDelay
  cases hs : s.state <;> rw [hs] at hack hwr hw0 hr0 <;> simp only [Bridge.clk, hs]
  case write1 =>
    refine h.clk_strobe hw (.inl hs) ?_ ?_ ?_ <;> split <;> simp [hack]
  case writeNext0 => exact h.clk_strobe hw (.inr hs) rfl (.inl rfl) rfl
  case read0 => exact h.clk_access hr (.inl hs) (.inl rfl)
  case readNext0 => exact h.clk_access hr (.inr hs) (.inr rfl)
  case reset =>
    refine ok_of_high ?_ hwr (.inl (hw0 (by decide))) (.inl (hr0 (by decide)))
    split <;> exact hack
  case idle =>
    split_ifs
    · exact Ok.launch hack hwr (hw0 (by decide)) (hr0 (by decide))
    · exact ok_of_high hack hwr (.inl (hw0 (by decide))) (.inl (hr0 (by decide)))
    · exact h
  case check =>
    split_ifs
    · exact Ok.launch hack hwr (hw0 (by decide)) (hr0 (by decide))
    · exact h
  case write0 => exact ok_of_high hack hwr (.inl (hw0 (by decide))) (.inl (hr0 (by decide)))
  case writeNext => exact ok_of_high hack hwr (.inl rfl) (.inl (hr0 (by decide)))
  case write2 => exact ok_of_high rfl hwr (.inl rfl) (.inl (hr0 (by decide)))
  case read1 =>
    split_ifs
    · exact ok_of_high rfl hwr (.inl (hw0 (by decide))) (.inl rfl)
    · exact ok_of_high hack hwr (.inl (hw0 (by decide))) (.inr (.inr (.inl rfl)))
  case readNext => exact ok_of_high hack hwr (.inl (hw0 (by decide))) (.inl rfl)
  case readNext1 => exact ok_of_high rfl hwr (.inl (hw0 (by decide))) (.inl rfl)
  case read2 => exact ok_of_high rfl hwr (.inl (hw0 (by decide))) (.inl (hr0 (by decide)))

theorem ok_of_run (R : (machine d).Run) (hw : d.write ≤ 30) (hr : d.read ≤ 30) (t : ℕ) :
    (R.state t).Ok d := by
  refine Machine.Reachable.invariant (I := fun s => s.Ok d) ?_ ?_ (R.reachable t)
  · rintro s rfl
    exact init_ok
  · exact fun s i h _ => h.clk hw hr

end Bridge

end DsdOrsoc.FlashIf
