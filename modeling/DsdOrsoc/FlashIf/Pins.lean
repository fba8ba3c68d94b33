import DsdOrsoc.FlashIf.Bridge

/-! Safety of the flash pins, for a bus that may change or drop its request in any cycle and for a
    reset that may come in any cycle. The state alone says who may use the data pins:

        state                              data pins      FLASH_OE_N    FLASH_SnWR
        write0 writeNext write2            the bridge     1             1
        write1 writeNext0                  the bridge     1             1 or 0
        read0 read1 readNext0 readNext1    the flash      1 or 0        1
        all others                         nobody         1             1

    INVARIANT (`Pins`): the pins are as in the table, and a 0 in it comes with FLASH_CE_N = 0. The
    address and the data are loaded by the edges that end `idle`, `write0`, `writeNext` and
    `readNext`, and none of these is a state of the strobe. -/

namespace DsdOrsoc.FlashIf
open Schemes

/-- The bridge drives the data pins in the states of a write. -/
def FState.drives : FState → Bool
  | .write0 | .write1 | .writeNext | .writeNext0 | .write2 => true
  | _ => false

/-- The states in which `FLASH_SnWR` may be low. -/
def FState.strobes : FState → Bool
  | .write1 | .writeNext0 => true
  | _ => false

/-- The states in which `FLASH_OE_N` may be low. -/
def FState.outputs : FState → Bool
  | .read0 | .read1 | .readNext0 | .readNext1 => true
  | _ => false

theorem FState.strobes_iff {x : FState} :
    x.strobes = true ↔ x = .write1 ∨ x = .writeNext0 := by
  cases x <;> simp [strobes]

theorem FState.drives_of_strobes {x : FState} (h : x.strobes = true) : x.drives = true := by
  cases x <;> first | rfl | cases h

theorem FState.not_drives_of_outputs {x : FState} (h : x.outputs = true) : x.drives = false := by
  cases x <;> first | rfl | cases h

theorem FState.not_outputs_of_drives {x : FState} (h : x.drives = true) : x.outputs = false := by
  cases x <;> first | rfl | cases h

/-- All inputs of the bridge. -/
structure PortsIn extends BridgeIn where
  rst : Bool

namespace Bridge

/-- One rising edge of the clock, with `wb_rst_i`. -/
def edge (d : Delays) (s : Bridge) (i : PortsIn) : Bridge :=
  if i.rst then init else s.clk d i.toBridgeIn

/-- The bridge after a reset, which may come again at any time. -/
def ports (d : Delays) : Machine Bridge PortsIn where
  start s := s = init
  legal _ _ := True
  step := edge d

/-- INVARIANT of every run. -/
structure Pins (s : Bridge) : Prop where
  drive : s.flashDTN = !s.state.drives
  output : s.flashOeN = false → s.state.outputs = true
  strobe : s.flashSnWr = false → s.state.strobes = true
  enable : s.flashSnWr = false ∨ s.flashOeN = false → s.flashCeN = false

variable {d : Delays} {s : Bridge} {i : BridgeIn}

theorem pins_of_high (hdrive : s.flashDTN = !s.state.drives) (hoe : s.flashOeN = true)
    (hwr : s.flashSnWr = true) : s.Pins where
  drive := hdrive
  output h := by simp [hoe] at h
  strobe h := by simp [hwr] at h
  enable h := by simp [hoe, hwr] at h

theorem init_pins : init.Pins := pins_of_high rfl rfl rfl

theorem Pins.oeN (h : s.Pins) (hs : s.state.outputs = false) : s.flashOeN = true := by
  cases hoe : s.flashOeN with
  | true => rfl
  | false => exact absurd (h.output hoe) (by simp [hs])

theorem Pins.dtN (h : s.Pins) (hwr : s.flashSnWr = false) : s.flashDTN = false := by
  rw [h.drive, FState.drives_of_strobes (h.strobe hwr)]
  rfl

theorem Pins.dtN_of_oeN (h : s.Pins) (hoe : s.flashOeN = false) : s.flashDTN = true := by
  rw [h.drive, FState.not_drives_of_outputs (h.output hoe)]
  rfl

theorem Pins.snWr (h : s.Pins) (hs : s.state.strobes = false) : s.flashSnWr = true := by
  cases hwr : s.flashSnWr with
  | true => rfl
  | false => exact absurd (h.strobe hwr) (by simp [hs])

/-! ### The parts of an edge -/

theorem Pins.launch (hdrive : s.flashDTN = true) (hoe : s.flashOeN = true)
    (hwr : s.flashSnWr = true) : (s.launch i).Pins := by
  rw [Bridge.launch]
  split
  · refine pins_of_high ?_ hoe hwr
    dsimp only
    split <;> rfl
  · refine pins_of_high ?_ hoe hwr
    dsimp only
    split <;> exact hdrive

/-- The strobe falls together with the chip enable, and the state is left when it rises. -/
theorem Pins.strobed (h : s.Pins) (hs : s.state.strobes = true) {last : Bridge}
    (hdrive : last.flashDTN = s.flashDTN) (hoe : last.flashOeN = s.flashOeN)
    (hlast : last.state.drives = true) : (s.strobe d last).Pins := by
  have hdrives := FState.drives_of_strobes hs
  have hhigh := h.oeN (FState.not_outputs_of_drives hdrives)
  rw [Bridge.strobe]
  split
  · refine pins_of_high ?_ (hoe.trans hhigh) rfl
    rw [hlast, ← hdrives]
    exact hdrive.trans h.drive
  · exact ⟨h.drive, h.output, fun _ => hs, fun _ => rfl⟩

/-- The output is enabled together with the chip. -/
theorem Pins.accessed (h : s.Pins) (hs : s.state.outputs = true) {next : FState}
    (hnext : next.outputs = true) : (s.access d next).Pins := by
  have hstate : (s.access d next).state.outputs = true := by
    rw [access]
    dsimp only
    split
    · exact hnext
    · exact hs
  have hnot := FState.not_drives_of_outputs hs
  refine ⟨?_, fun _ => hstate, fun hlow => ?_, fun _ => rfl⟩
  · rw [FState.not_drives_of_outputs hstate, ← hnot]
    exact h.drive
  · -- a read does not touch the strobe
    have hdrives := FState.drives_of_strobes (h.strobe hlow)
    exact absurd hdrives (by simp [hnot])

/-! ### Edges and runs -/

/-- STEP, whatever the bus does. -/
theorem Pins.clk (h : s.Pins) : (s.clk d i).Pins := by
  have hdrive := h.drive
  have hoe := h.oeN
  have hwr := h.snWr
  cases hs : s.state <;> rw [hs] at hdrive hoe hwr <;> simp only [Bridge.clk, hs]
  case write1 =>
    refine h.strobed (by rw [hs]; rfl) ?_ ?_ ?_ <;> split <;> rfl
  case writeNext0 => exact h.strobed (by rw [hs]; rfl) rfl rfl rfl
  case read0 => exact h.accessed (by rw [hs]; rfl) rfl
  case readNext0 => exact h.accessed (by rw [hs]; rfl) rfl
  case idle =>
    split
    · split
      · exact Pins.launch hdrive (hoe rfl) (hwr rfl)
      · exact pins_of_high hdrive (hoe rfl) (hwr rfl)
    · exact h
  case check =>
    split
    · exact Pins.launch hdrive (hoe rfl) (hwr rfl)
    · exact h
  case reset =>
    refine pins_of_high ?_ (hoe rfl) (hwr rfl)
    dsimp only
    split <;> exact hdrive
  case read1 =>
    -- the output is switched off, whether the access ends here or goes on
    split <;> exact pins_of_high hdrive rfl (hwr rfl)
  case readNext1 => exact pins_of_high hdrive rfl (hwr rfl)
  case write2 => exact pins_of_high rfl (hoe rfl) (hwr rfl)
  case write0 | writeNext | readNext | read2 => exact pins_of_high hdrive (hoe rfl) (hwr rfl)

theorem Pins.edge (h : s.Pins) {i : PortsIn} : (s.edge d i).Pins := by
  rw [Bridge.edge]
  split
  · exact init_pins
  · exact h.clk

/-- RUN. -/
theorem pins_run (R : (ports d).Run) (t : ℕ) : (R.state t).Pins := by
  refine Machine.Reachable.invariant ?_ ?_ (R.reachable t)
  · rintro s rfl
    exact init_pins
  · intro s i h _
    exact h.edge

/-! ### Address and data -/

/-- The states of the strobe keep the address and the data, also when they are left. -/
theorem clk_kept (hs : s.state.strobes = true) :
    (s.clk d i).flashA = s.flashA ∧ (s.clk d i).flashDO = s.flashDO := by
  cases hst : s.state <;> rw [hst] at hs <;> cases hs <;>
    simp only [Bridge.clk, hst, strobe] <;> split_ifs <;> exact ⟨rfl, rfl⟩

/-- The other states keep the strobe. -/
theorem clk_snWr (hs : s.state.strobes = false) : (s.clk d i).flashSnWr = s.flashSnWr := by
  cases hst : s.state
  case write1 | writeNext0 => simp [hst, FState.strobes] at hs
  all_goals simp only [Bridge.clk, hst, Bridge.launch, access] <;> split_ifs <;> rfl

/-- An edge next to a cycle with the strobe low ends a state of the strobe. -/
theorem Pins.strobes_of_low (h : s.Pins)
    (hlow : s.flashSnWr = false ∨ (s.clk d i).flashSnWr = false) : s.state.strobes = true := by
  rcases hlow with hlow | hlow
  · exact h.strobe hlow
  · by_contra hs
    rw [Bool.not_eq_true] at hs
    rw [clk_snWr hs] at hlow
    exact absurd (h.strobe hlow) (by simp [hs])

theorem Pins.edge_kept (h : s.Pins) {i : PortsIn}
    (hlow : (s.edge d i).flashSnWr = false ∨ s.flashSnWr = false ∧ i.rst = false) :
    (s.edge d i).flashA = s.flashA ∧ (s.edge d i).flashDO = s.flashDO := by
  cases hr : i.rst with
  | true =>
    -- the reset raises the strobe
    simp [Bridge.edge, hr, init] at hlow
  | false =>
    have hedge : s.edge d i = s.clk d i.toBridgeIn := by simp [Bridge.edge, hr]
    rw [hedge] at hlow ⊢
    exact clk_kept (h.strobes_of_low (hlow.symm.imp_left And.left))

end Bridge

variable {d : Delays}

/-- In every cycle of every run the bridge does not drive the data pins while the output of the
    flash is enabled, output and strobe are not low together, neither is low without the chip
    enable, and the strobe is low only while the bridge drives. No edge next to a cycle with the
    strobe low changes the address or the data, unless it ends the strobe by a reset. -/
theorem flash_pins_safe (R : (Bridge.ports d).Run) (t : ℕ) :
    ¬ ((R.state t).flashDTN = false ∧ (R.state t).flashOeN = false) ∧
      ¬ ((R.state t).flashOeN = false ∧ (R.state t).flashSnWr = false) ∧
      ((R.state t).flashSnWr = false ∨ (R.state t).flashOeN = false →
        (R.state t).flashCeN = false) ∧
      ((R.state t).flashSnWr = false → (R.state t).flashDTN = false) ∧
      ((R.state (t + 1)).flashSnWr = false ∨
          (R.state t).flashSnWr = false ∧ (R.input t).rst = false →
        (R.state (t + 1)).flashA = (R.state t).flashA ∧
          (R.state (t + 1)).flashDO = (R.state t).flashDO) := by
  have h := Bridge.pins_run R t
  refine ⟨?_, ?_, h.enable, h.dtN, ?_⟩
  · rintro ⟨hdrive, hoe⟩
    exact absurd hdrive (by simp [h.dtN_of_oeN hoe])
  · rintro ⟨hoe, hwr⟩
    exact absurd (h.dtN hwr) (by simp [h.dtN_of_oeN hoe])
  · rw [show R.state (t + 1) = (R.state t).edge d (R.input t) from R.next t]
    exact h.edge_kept

/-- A word is written in cycle 1. The request is dropped at once, the address and the data are
    others in every cycle, and cycle 5 has a reset. -/
def restless (t : ℕ) : PortsIn where
  cyc := t = 1
  stb := t = 1
  access := ⟨BitVec.ofNat 32 (4 * t), 0b1111, true, BitVec.ofNat 32 (65536 * t)⟩
  flashDI := 0
  flashSts := true
  rst := t = 5

def restlessRun : (Bridge.ports ⟨3, 9⟩).Run := .ofInput Bridge.init restless rfl fun _ => trivial

/-- The strobe is low in cycles 4 and 5, with the address of cycle 1 and the data of cycle 2. -/
theorem flash_pins_safe_restless :
    (restlessRun.state 4).flashSnWr = false ∧ (restlessRun.state 5).flashSnWr = false ∧
      (restless 4).access ≠ (restless 5).access ∧
      (restlessRun.state 5).flashA = half (restless 1).access.adr false ∧
      (restlessRun.state 5).flashDO = swap ((restless 2).access.dat.extractLsb' 16 16) := by
  have hlow : (restlessRun.state 4).flashSnWr = false := rfl
  obtain ⟨-, -, -, -, hkept⟩ := flash_pins_safe restlessRun 4
  obtain ⟨hA, hD⟩ := hkept (.inr ⟨hlow, rfl⟩)
  exact ⟨hlow, rfl, by decide, hA.trans rfl, hD.trans rfl⟩

end DsdOrsoc.FlashIf
