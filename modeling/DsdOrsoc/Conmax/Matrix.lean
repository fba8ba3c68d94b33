import DsdOrsoc.Conmax.SlaveIf
import DsdOrsoc.Schemes.Machine

/-! The whole bus matrix `wb_conmax_top`: eight master interfaces, sixteen slave interfaces and the
    register file in front of slave port 15.

        master m ──▶ master_if m ──(adr[31:28] = k)──▶ slave_if k ──▶ slave k          k < 15
                                                       slave_if 15 ──▶ rf ──▶ slave 15
                                                                       └─ adr[27:24] = 15: registers

    Request lines run through the matrix combinationally, except for `cyc`, which every master
    interface registers for each slave; answer lines come back combinationally. A transaction has
    one TARGET: a slave port, or the configuration registers. -/

namespace DsdOrsoc.Conmax
open Schemes

/-- `wb_conmax_rf`: the configuration registers and the handshake with their reader. -/
structure RegFile where
  conf : Slave → BitVec 16
  rfWe : Bool
  rfAck : Bool
  rfDout : BitVec 16

/-- The registers of the matrix; `sCyc i k` is `s<k>_cyc_o` of master interface `i`. -/
structure Matrix where
  sCyc : Master → Slave → Bool
  slave : Slave → SlaveIf
  rf : RegFile

/-- The input pins of one cycle. -/
structure MatrixIn where
  m : Master → WbReq
  s : Slave → WbAns

/-- `slv_sel`. -/
def slvSel (adr : BitVec 32) : Slave := adr.extractLsb' 28 4

/-- The nibble below, which the register file compares with `rf_addr`. -/
def rfNibble (adr : BitVec 32) : BitVec 4 := adr.extractLsb' 24 4

/-- The number of a configuration register. -/
def rfIndex (adr : BitVec 32) : Slave := adr.extractLsb' 2 4

namespace Matrix

variable (x : Matrix) (i : MatrixIn)

/-- Out of reset. -/
def reset : Matrix where
  sCyc _ _ := false
  slave _ := SlaveIf.reset
  rf := { conf := fun _ => 0, rfWe := false, rfAck := false, rfDout := 0 }

/-- `wb_conmax_master_if`: the lines from master `j` to slave interface `k`. -/
def masterO (k : Slave) (j : Master) : WbReq :=
  { i.m j with cyc := x.sCyc j k, stb := decide (slvSel (i.m j).adr = k) && (i.m j).stb }

/-- `wb_conmax_slave_if`: the lines from slave interface `k`. -/
def slaveO (k : Slave) : WbReq := (x.slave k).wbO (x.masterO i k)

/-- `rf_sel`. -/
def rfSel : Bool :=
  (x.slaveO i 15).cyc && (x.slaveO i 15).stb && decide (rfNibble (x.slaveO i 15).adr = 15)

/-- The request pins of slave port `k`. -/
def sO (k : Slave) : WbReq :=
  if k = 15 then { x.slaveO i 15 with cyc := if x.rfSel i then false else (x.slaveO i 15).cyc }
  else x.slaveO i k

/-- The answer of the register file. -/
def rfAns : WbAns :=
  { ack := x.rf.rfAck, err := false, rty := false, dat := x.rf.rfDout.setWidth 32 }

/-- The answer lines into slave interface `k`. -/
def slaveI (k : Slave) : WbAns := if k = 15 then (if x.rfSel i then x.rfAns else i.s 15) else i.s k

/-- The answer pins of master port `j`: those of the slave interface that its address selects. -/
def mO (j : Master) : WbAns :=
  (x.slave (slvSel (i.m j).adr)).mO (x.slaveI i (slvSel (i.m j).adr)) j

/-- One rising edge of the clock in the register file. -/
def rfClk : RegFile :=
  let r := x.slaveO i 15
  { conf := fun k => if x.rf.rfWe && decide (rfIndex r.adr = k) then r.dat.setWidth 16
      else x.rf.conf k
    rfWe := x.rfSel i && r.we && !x.rf.rfWe
    rfAck := x.rfSel i && !x.rf.rfAck
    rfDout := if x.rfSel i then x.rf.conf (rfIndex r.adr) else 0 }

/-- One rising edge of the clock. -/
def clk : Matrix where
  sCyc j k :=
    if (i.m j).cyc && !(i.m j).stb then x.sCyc j k
    else if slvSel (i.m j).adr = k then (i.m j).cyc else false
  slave k := (x.slave k).clk (x.rf.conf k) (x.masterO i k)
  rf := x.rfClk i

/-- The environment of the matrix: a slave acknowledges only in cycles where its `cyc` and `stb` are
    high. -/
def machine : Machine Matrix MatrixIn where
  start x := x = reset
  legal x i := ∀ k, (i.s k).ack = true ∨ (i.s k).err = true →
    (x.sO i k).cyc = true ∧ (x.sO i k).stb = true
  step := clk

end Matrix

/-! ### Targets -/

/-- Where a transaction goes: a slave port, or the configuration registers. -/
inductive Target where
  | slave (k : Slave)
  | regs
  deriving DecidableEq

/-- The target of an address: the slave numbered by `adr[31:28]`, behind the register-file
    filter. -/
def target (adr : BitVec 32) : Target :=
  if slvSel adr = 15 ∧ rfNibble adr = 15 then .regs else .slave (slvSel adr)

/-- The slave interface in front of a target. -/
def Target.iface : Target → Slave
  | .slave k => k
  | .regs => 15

theorem iface_target (adr : BitVec 32) : (target adr).iface = slvSel adr := by
  unfold target
  split
  · rename_i h
    exact h.1.symm
  · rfl

namespace Matrix

variable (x : Matrix) (i : MatrixIn)

/-- The request lines at a target. -/
def seen : Target → WbReq
  | .slave k => x.sO i k
  | .regs => { x.slaveO i 15 with cyc := x.rfSel i }

/-- The answer lines of a target. -/
def answer : Target → WbAns
  | .slave k => i.s k
  | .regs => x.rfAns

/-- The master that a target is connected to. -/
def owner (p : Target) : Master := (x.slave p.iface).mastSel

/-- A request of master `j` stands at target `p`. -/
def Presented (p : Target) (j : Master) : Prop :=
  (x.seen i p).cyc = true ∧ (x.seen i p).stb = true ∧ x.owner p = j

/-- Slave interface `k` has `cyc` and `stb` high. -/
def Drives (k : Slave) : Prop := (x.slaveO i k).cyc = true ∧ (x.slaveO i k).stb = true

variable {x i}

theorem drives_iff {k : Slave} : x.Drives i k ↔
    x.sCyc (x.slave k).mastSel k = true ∧ (x.slave k).cycR (x.slave k).mastSel = true ∧
      slvSel (i.m (x.slave k).mastSel).adr = k ∧ (i.m (x.slave k).mastSel).stb = true := by
  simp only [Drives, slaveO, SlaveIf.wbO, masterO, Bool.and_eq_true, decide_eq_true_eq]
  tauto

theorem rfSel_iff : x.rfSel i = true ↔
    x.Drives i 15 ∧ rfNibble (i.m (x.slave 15).mastSel).adr = 15 := by
  simp only [rfSel, Drives, Bool.and_eq_true, decide_eq_true_eq]
  rfl

/-- A driven slave port: the register file lets everything through that it does not take. -/
theorem sO_driven (k : Slave) :
    ((x.sO i k).cyc = true ∧ (x.sO i k).stb = true) ↔
      x.Drives i k ∧ ¬ (k = 15 ∧ x.rfSel i = true) := by
  by_cases hk : k = 15
  · subst hk
    cases hr : x.rfSel i <;> simp [sO, Drives, hr]
  · simp only [sO, hk, ↓reduceIte, Drives, false_and, not_false_eq_true, and_true]

/-- The requests at a target are those that its slave interface drives for it. -/
theorem presented_iff {p : Target} {j : Master} :
    x.Presented i p j ↔ x.Drives i p.iface ∧ x.owner p = j ∧ p = target (i.m j).adr := by
  have hsel : ∀ k, x.Drives i k → slvSel (i.m (x.slave k).mastSel).adr = k :=
    fun k h => (drives_iff.1 h).2.2.1
  cases p with
  | slave k =>
    have h : x.Presented i (.slave k) j ↔
        (x.Drives i k ∧ ¬ (k = 15 ∧ x.rfSel i = true)) ∧ (x.slave k).mastSel = j := by
      rw [← sO_driven, and_assoc]
      rfl
    rw [h]
    constructor
    · rintro ⟨⟨hd, hn⟩, rfl⟩
      refine ⟨hd, rfl, ?_⟩
      rw [target, hsel k hd, if_neg]
      rintro ⟨rfl, hf⟩
      exact hn ⟨rfl, rfSel_iff.2 ⟨hd, hf⟩⟩
    · rintro ⟨hd, rfl, ht⟩
      refine ⟨⟨hd, ?_⟩, rfl⟩
      rintro ⟨rfl, hf⟩
      have hreg : target (i.m (x.slave 15).mastSel).adr = .regs :=
        if_pos ⟨hsel 15 hd, (rfSel_iff.1 hf).2⟩
      rw [owner, show (Target.slave 15).iface = 15 from rfl, hreg] at ht
      cases ht
  | regs =>
    have h : x.Presented i .regs j ↔ x.rfSel i = true ∧ (x.slave 15).mastSel = j := by
      constructor
      · rintro ⟨hc, -, ho⟩
        exact ⟨hc, ho⟩
      · rintro ⟨hc, ho⟩
        exact ⟨hc, (rfSel_iff.1 hc).1.2, ho⟩
    rw [h]
    constructor
    · rintro ⟨hr, rfl⟩
      have hd := rfSel_iff.1 hr
      exact ⟨hd.1, rfl, (if_pos ⟨hsel 15 hd.1, hd.2⟩).symm⟩
    · rintro ⟨hd, rfl, ht⟩
      refine ⟨rfSel_iff.2 ⟨hd, ?_⟩, rfl⟩
      by_contra hf
      rw [target, if_neg fun h => hf h.2] at ht
      cases ht

/-- At its target a request stands with the lines of its master. -/
theorem seen_eq {p : Target} {j : Master} (h : x.Presented i p j) (hc : (i.m j).cyc = true)
    (hs : (i.m j).stb = true) : x.seen i p = i.m j := by
  obtain ⟨hcyc, hstb, rfl⟩ := h
  have hrest : (x.seen i p).adr = (i.m (x.owner p)).adr ∧ (x.seen i p).dat = (i.m (x.owner p)).dat ∧
      (x.seen i p).sel = (i.m (x.owner p)).sel ∧ (x.seen i p).we = (i.m (x.owner p)).we := by
    cases p with
    | slave k =>
      by_cases hk : k = 15
      · subst hk
        exact ⟨rfl, rfl, rfl, rfl⟩
      · rw [seen, sO, if_neg hk]
        exact ⟨rfl, rfl, rfl, rfl⟩
    | regs => exact ⟨rfl, rfl, rfl, rfl⟩
  exact WbReq.ext (hcyc.trans hc.symm) (hstb.trans hs.symm) hrest.1 hrest.2.1 hrest.2.2.1
    hrest.2.2.2

/-- The answer that reaches the slave interface in front of a busy target is the target's. -/
theorem slaveI_eq {p : Target} {j : Master} (h : x.Presented i p j) :
    x.slaveI i p.iface = x.answer i p := by
  cases p with
  | slave k =>
    by_cases hk : k = 15
    · subst hk
      have hn := ((sO_driven 15).1 ⟨h.1, h.2.1⟩).2
      have hr : ¬ x.rfSel i = true := fun hr => hn ⟨rfl, hr⟩
      change (if x.rfSel i = true then x.rfAns else i.s 15) = i.s 15
      rw [if_neg hr]
    · exact if_neg hk
  | regs => exact if_pos h.1

/-- The master whose request stands at a target sees the answer of that target. -/
theorem mO_eq {p : Target} {j : Master} (h : x.Presented i p j) : x.mO i j = x.answer i p := by
  obtain ⟨-, ho, ht⟩ := presented_iff.1 h
  have hk : slvSel (i.m j).adr = p.iface := by rw [ht, iface_target]
  rw [mO, hk, slaveI_eq h]
  simp [SlaveIf.mO, show (x.slave p.iface).mastSel = j from ho]

/-- A master sees an answer only while its request stands at its target. -/
theorem presented_of_answer (hl : machine.legal x i) {j : Master}
    (h : (x.mO i j).ack = true ∨ (x.mO i j).err = true) :
    x.Presented i (target (i.m j).adr) j := by
  have hsel : (x.slave (slvSel (i.m j).adr)).mastSel = j ∧
      ((x.slaveI i (slvSel (i.m j).adr)).ack = true ∨
        (x.slaveI i (slvSel (i.m j).adr)).err = true) := by
    simp only [mO, SlaveIf.mO, Bool.and_eq_true, decide_eq_true_eq] at h
    tauto
  have hd : x.Drives i (slvSel (i.m j).adr) := by
    by_cases hr : slvSel (i.m j).adr = 15 ∧ x.rfSel i = true
    · rw [hr.1]
      exact (rfSel_iff.1 hr.2).1
    · refine ((sO_driven _).1 (hl _ ?_)).1
      have hI : x.slaveI i (slvSel (i.m j).adr) = i.s (slvSel (i.m j).adr) := by
        unfold slaveI
        split_ifs with h1 h2
        · exact absurd ⟨h1, h2⟩ hr
        · rw [h1]
        · rfl
      rw [← hI]
      exact hsel.2
  refine presented_iff.2 ⟨?_, ?_, rfl⟩
  · rw [iface_target]
    exact hd
  · rw [owner, iface_target]
    exact hsel.1

end Matrix

end DsdOrsoc.Conmax
