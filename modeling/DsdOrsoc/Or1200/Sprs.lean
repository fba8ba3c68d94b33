import DsdOrsoc.Or1200.Operands
import DsdOrsoc.Or1200.Except

/-! The status register of `or1200_sprs` and its five writers, in the order of their priority: entry
    into an exception, l.rfe, flag and carry updates, l.mtspr.

        bit  16  15..11           10  9  8   7    6    5    4    3    2    1    0
             TED FO EPH DSX OVE OV CY F  CE  LEE  IME  DME  ICE  DCE  IEE  TEE  SM -/

namespace DsdOrsoc.Or1200

/-- The value of the status register. -/
abbrev Sr := BitVec 17

/-- The register; its EPH bit comes from a pin in the first cycle after reset. -/
structure SrReg where
  srReg : Sr
  bitEph : Bool
  bitEphSelect : Bool

/-- `sr`. -/
def SrReg.sr (s : SrReg) (bootAdrSel : Bool) : Sr :=
  (s.srReg.extractLsb' 15 2 ++ BitVec.ofBool (if s.bitEphSelect then bootAdrSel else s.bitEph) ++
    s.srReg.extractLsb' 0 14 : BitVec 17)

/-- The writers of the status register. -/
structure SrIn where
  started : Bool
  rfe : Bool
  flagWe : Bool
  flagforw : Bool
  cyWe : Bool
  cyforw : Bool
  sprWe : Bool
  dat : BitVec 32

/-- One field of `to_sr`: kept or set by an exception, restored by l.rfe, updated by the instruction
    in EX, or written by l.mtspr. -/
def srField {w : ℕ} (i : SrIn) (entry esr : BitVec w) (update : Option (BitVec w))
    (written old : BitVec w) : BitVec w :=
  if i.started then entry
  else if i.rfe then esr
  else match update with
    | some b => b
    | none => if i.sprWe then written else old

/-- `to_sr`. -/
def toSr (sr esr : Sr) (i : SrIn) : Sr :=
  (srField i 1#1 (esr.extractLsb' 16 1) none (i.dat.extractLsb' 16 1) (sr.extractLsb' 16 1) ++
    srField i (sr.extractLsb' 11 5) (esr.extractLsb' 11 5) none (1#1 ++ i.dat.extractLsb' 11 4)
      (sr.extractLsb' 11 5) ++
    srField i (sr.extractLsb' 10 1) (esr.extractLsb' 10 1)
      (if i.cyWe then some (.ofBool i.cyforw) else none) (i.dat.extractLsb' 10 1)
      (sr.extractLsb' 10 1) ++
    srField i (sr.extractLsb' 9 1) (esr.extractLsb' 9 1)
      (if i.flagWe then some (.ofBool i.flagforw) else none) (i.dat.extractLsb' 9 1)
      (sr.extractLsb' 9 1) ++
    srField i (sr.extractLsb' 7 2 ++ 0#2 ++ sr.extractLsb' 3 2 ++ 1#3) (esr.extractLsb' 0 9) none
      (i.dat.extractLsb' 0 9) (sr.extractLsb' 0 9) : BitVec 17)

/-- `sr_we`. -/
def SrIn.we (i : SrIn) : Bool := i.sprWe || i.rfe || i.flagWe || i.cyWe

/-- One rising edge of the clock. -/
def SrReg.clk (s : SrReg) (bootAdrSel : Bool) (esr : Sr) (i : SrIn) : SrReg where
  srReg := if i.started || i.we then toSr (s.sr bootAdrSel) esr i else s.srReg
  bitEph :=
    if s.bitEphSelect then bootAdrSel
    else if i.we then (toSr (s.sr bootAdrSel) esr i).getLsbD 14 else s.bitEph
  bitEphSelect := false

/-! ### What a clock edge does to the status register -/

section Clk

variable {s : SrReg} {boot : Bool} {sr esr : Sr} {i : SrIn}

/-- The slices of `to_sr` put together again. -/
theorem sr_slices (x : Sr) :
    (x.extractLsb' 16 1 ++ x.extractLsb' 11 5 ++ x.extractLsb' 10 1 ++ x.extractLsb' 9 1 ++
      x.extractLsb' 0 9 : BitVec 17) = x := by
  apply BitVec.eq_of_getLsbD_eq
  intro n hn
  simp only [BitVec.getLsbD_append, BitVec.getLsbD_extractLsb']
  grind

theorem toSr_rfe (hst : i.started = false) (hr : i.rfe = true) : toSr sr esr i = esr := by
  simp only [toSr, srField, hst, hr, Bool.false_eq_true, if_false, if_true]
  exact sr_slices esr

/-- Without a writer the value stays. -/
theorem toSr_of_not_we (hst : i.started = false) (hw : i.we = false) : toSr sr esr i = sr := by
  simp only [SrIn.we, Bool.or_eq_false_iff] at hw
  simp only [toSr, srField, hst, hw, Bool.false_eq_true, if_false]
  exact sr_slices sr

/-- Flag and carry updates leave the other bits alone. -/
theorem toSr_flags (hst : i.started = false) (hr : i.rfe = false) (hw : i.sprWe = false) {n : ℕ}
    (hf : n ≠ 9) (hc : n ≠ 10) : (toSr sr esr i).getLsbD n = sr.getLsbD n := by
  nth_rewrite 2 [← sr_slices sr]
  simp only [toSr, srField, hst, hr, hw, Bool.false_eq_true, if_false, BitVec.getLsbD_append]
  grind

/-- Supervisor mode, without interrupts, tick timer and MMUs. -/
def Entered (sr : Sr) : Prop :=
  sr.getLsbD 0 = true ∧ sr.getLsbD 1 = false ∧ sr.getLsbD 2 = false ∧ sr.getLsbD 5 = false ∧
    sr.getLsbD 6 = false

theorem toSr_started (hst : i.started = true) : Entered (toSr sr esr i) := by
  simp only [Entered, toSr, srField, hst, if_true, BitVec.getLsbD_append]
  simp

theorem getLsbD_sr (n : ℕ) : (s.sr boot).getLsbD n =
    if n = 14 then (if s.bitEphSelect then boot else s.bitEph) else s.srReg.getLsbD n := by
  simp only [SrReg.sr, BitVec.getLsbD_append, BitVec.getLsbD_extractLsb', BitVec.getLsbD_ofBool]
  grind

variable {boot' : Bool}

/-- Apart from an entry into an exception, the value after the edge is `to_sr`; the EPH bit is
    written from the second cycle on. -/
theorem clk_sr (hst : i.started = false)
    (hsel : s.bitEphSelect = true → i.rfe = false ∧ i.sprWe = false) :
    (s.clk boot esr i).sr boot' = toSr (s.sr boot) esr i := by
  apply BitVec.eq_of_getLsbD_eq
  intro n _
  rw [getLsbD_sr]
  split
  · next hn =>
    subst hn
    cases hb : s.bitEphSelect with
    | true =>
      obtain ⟨hr, hw⟩ := hsel hb
      rw [toSr_flags hst hr hw (by decide) (by decide), getLsbD_sr]
      simp [SrReg.clk, hb]
    | false =>
      cases hwe : i.we with
      | true => simp [SrReg.clk, hb, hwe]
      | false => rw [toSr_of_not_we hst hwe, getLsbD_sr]; simp [SrReg.clk, hb, hwe]
  · next hn =>
    cases hwe : i.we with
    | true => simp [SrReg.clk, hwe]
    | false => rw [toSr_of_not_we hst hwe, getLsbD_sr, if_neg hn]; simp [SrReg.clk, hst, hwe]

theorem clk_sr_rfe (h : s.bitEphSelect = false) (hst : i.started = false) (hr : i.rfe = true) :
    (s.clk boot esr i).sr boot' = esr := by
  rw [clk_sr hst (by simp [h]), toSr_rfe hst hr]

theorem clk_sr_flags (hst : i.started = false) (hr : i.rfe = false) (hw : i.sprWe = false) {n : ℕ}
    (hf : n ≠ 9) (hc : n ≠ 10) :
    ((s.clk boot esr i).sr boot').getLsbD n = (s.sr boot).getLsbD n := by
  rw [clk_sr hst fun _ => ⟨hr, hw⟩, toSr_flags hst hr hw hf hc]

theorem clk_sr_started (hst : i.started = true) : Entered ((s.clk boot esr i).sr boot') := by
  have hreg : (s.clk boot esr i).srReg = toSr (s.sr boot) esr i := by
    simp [SrReg.clk, hst]
  obtain ⟨h0, h1, h2, h5, h6⟩ : Entered (toSr (s.sr boot) esr i) := toSr_started hst
  refine ⟨?_, ?_, ?_, ?_, ?_⟩ <;> rw [getLsbD_sr, hreg] <;> simpa

/-- An exception enters its handler with the prefix of the interrupted program. -/
theorem clk_bitEph_started (h : s.bitEphSelect = false) (hst : i.started = true) :
    (s.clk boot esr i).bitEph = s.bitEph := by
  have hsr : (toSr (s.sr boot) esr i).getLsbD 14 = (s.sr boot).getLsbD 14 := by
    simp only [toSr, srField, hst, if_true, BitVec.getLsbD_append, BitVec.getLsbD_extractLsb']
    simp
  simp only [SrReg.clk, h, hsr, getLsbD_sr]
  simp

end Clk

end DsdOrsoc.Or1200
