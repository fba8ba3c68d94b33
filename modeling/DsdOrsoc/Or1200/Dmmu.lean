import DsdOrsoc.Or1200.Lsu
import DsdOrsoc.Or1200.Tlb

/-! The data MMU `or1200_dmmu_top` with its DTLB, between the load/store unit and a memory port
    without data cache. There is no comparison of pages as on the instruction side: `dtlb_done` says
    that some lookup was made in the cycle before, and the address of that lookup is still the
    present one because

        a request stalls EX            lsu_stall, until the acknowledge, which withdraws the request
        a flush empties EX             ex_lsu_op
        l.mtspr and l.mfspr are in EX  so no load or store is, and the index of the DTLB is free -/

namespace DsdOrsoc.Or1200
open Schemes

/-- The translate word of the DTLB. -/
structure DtlbTr where
  ppn : BitVec 19
  swe : Bool
  sre : Bool
  uwe : Bool
  ure : Bool
  ci : Bool

/-- `tlb_tr_ram_in` of the DTLB. -/
def DtlbTr.ofSpr (d : BitVec 32) : DtlbTr where
  ppn := pageNumber d
  swe := d.getLsbD 9
  sre := d.getLsbD 8
  uwe := d.getLsbD 7
  ure := d.getLsbD 6
  ci := d.getLsbD 1

/-- The page may be read or written in the mode. -/
def DtlbTr.permits (e : DtlbTr) (we supv : Bool) : Bool :=
  match we, supv with
  | false, false => e.ure
  | false, true => e.sre
  | true, false => e.uwe
  | true, true => e.swe

/-! ### The MMU -/

/-- The registers of `or1200_dmmu_top` that its outputs depend on, and its DTLB. -/
structure Dmmu where
  dtlbDone : Bool
  dtlb : Tlb DtlbTr

structure DmmuIn where
  dcEn : Bool
  dmmuEn : Bool
  supv : Bool
  dcpuAdr : BitVec 32
  dcpuCycstb : Bool
  dcpuWe : Bool
  sprCs : Bool
  sprWrite : Bool
  sprAddr : BitVec 32
  sprDat : BitVec 32
  err : Bool
  tag : BitVec 4

namespace Dmmu

variable (s : Dmmu) (i : DmmuIn)

def fault : Bool := s.dtlbDone && !s.dtlb.tr.doq.permits i.dcpuWe i.supv

def miss : Bool := s.dtlbDone && !s.dtlb.hit i.dcpuAdr

def dtlbEn : Bool := i.dmmuEn && i.dcpuCycstb

/-- `qmemdmmu_cycstb_o`. -/
def cycstbO : Bool :=
  if !i.dcEn && i.dmmuEn then !(s.miss i || s.fault i) && s.dtlbDone && i.dcpuCycstb
  else !(s.miss i || s.fault i) && i.dcpuCycstb

/-- `qmemdmmu_adr_o`. -/
def adrO : BitVec 32 := if i.dmmuEn then s.dtlb.tr.doq.ppn ++ pageOffset i.dcpuAdr else i.dcpuAdr

/-- `qmemdmmu_ci_o`. -/
def ciO : Bool := if i.dmmuEn then s.dtlb.tr.doq.ci else i.dcpuAdr.getLsbD 31

def dcpuErrO : Bool := s.miss i || s.fault i || i.err

/-- `dcpu_tag_o`: TLB miss, page fault or the tag of the memory. -/
def dcpuTagO : BitVec 4 := if s.miss i then 0xd else if s.fault i then 0xc else i.tag

/-- The pins of the DTLB. -/
def tlbIn : TlbIn where
  tlbEn := dtlbEn i
  vaddr := i.dcpuAdr
  sprCs := i.sprCs
  sprWrite := i.sprWrite
  sprAddr := i.sprAddr
  sprDat := i.sprDat

/-- `spr_dat_o`. -/
def sprDatO : BitVec 32 :=
  if i.sprCs && !i.sprWrite && !(tlbIn i).tm then
    s.dtlb.mr.doq.vpn ++ (tlbIn i).tlbIndex ++ 0#12 ++ BitVec.ofBool s.dtlb.mr.doq.v
  else if i.sprCs && !i.sprWrite && (tlbIn i).tm then
    s.dtlb.tr.doq.ppn ++ 0#3 ++ BitVec.ofBool s.dtlb.tr.doq.swe ++
      BitVec.ofBool s.dtlb.tr.doq.sre ++ BitVec.ofBool s.dtlb.tr.doq.uwe ++
      BitVec.ofBool s.dtlb.tr.doq.ure ++ 0#4 ++ BitVec.ofBool s.dtlb.tr.doq.ci ++ 0#1
  else 0

/-- One rising edge of the clock. -/
def clk : Dmmu where
  dtlbDone := if dtlbEn i then i.dcpuCycstb else false
  dtlb := s.dtlb.clk DtlbTr.ofSpr (tlbIn i)

variable {s i}

/-- What a passed request has been checked for. -/
theorem cycstbO_cases (hdc : i.dcEn = false) (hen : i.dmmuEn = true) (hc : s.cycstbO i = true)
    (hlook : s.dtlbDone = true → i.dcpuCycstb = true → s.dtlb.LooksUp i.dcpuAdr) :
    s.dtlb.Maps i.dcpuAdr ∧
    (s.dtlb.tr.mem (pageIndex i.dcpuAdr)).permits i.dcpuWe i.supv = true ∧
    s.adrO i = (s.dtlb.tr.mem (pageIndex i.dcpuAdr)).ppn ++ pageOffset i.dcpuAdr := by
  simp only [cycstbO, hdc, hen, Bool.not_false, Bool.and_self, if_true, Bool.and_eq_true,
    Bool.not_eq_true', Bool.or_eq_false_iff] at hc
  obtain ⟨⟨⟨hmiss, hfault⟩, hdone⟩, hcyc⟩ := hc
  have hl := hlook hdone hcyc
  have hhit : s.dtlb.hit i.dcpuAdr = true := by simpa [miss, hdone] using hmiss
  have hperm : s.dtlb.tr.doq.permits i.dcpuWe i.supv = true := by simpa [fault, hdone] using hfault
  rw [← hl.tr_doq]
  exact ⟨hl.maps hhit, hperm, by rw [adrO, hen]; rfl⟩

end Dmmu

/-! ### Load/store unit and MMU -/

/-- EX with its operands, the load/store unit and the data MMU. -/
structure DataSide where
  ops : Operands
  lsu : Lsu
  dmmu : Dmmu

/-- The pins: `core` are those of the pipeline, with the stalls that come from elsewhere in
    `core.idFreeze`; `ack` and `err` are those of the memory port. -/
structure DataSideIn where
  core : OperandsIn
  duStall : Bool
  dcEn : Bool
  dmmuEn : Bool
  ack : Bool
  err : Bool
  tag : BitVec 4

namespace DataSide

variable (s : DataSide) (i : DataSideIn)

/-- The pins of the pipeline, with the stall of the load/store unit. -/
def opsIn : OperandsIn :=
  { i.core with idFreeze := i.core.idFreeze || s.lsu.lsuStall i.duStall i.ack }

def dcpuAdr : BitVec 32 := s.lsu.dcpuAdr s.ops.operandA s.ops.exSimm

def dcpuCycstb : Bool := s.lsu.dcpuCycstb i.duStall i.ack

/-- The pins of the MMU, group 1 of the SPRs. -/
def dmmuIn : DmmuIn where
  dcEn := i.dcEn
  dmmuEn := i.dmmuEn
  supv := i.core.supv
  dcpuAdr := s.dcpuAdr
  dcpuCycstb := s.dcpuCycstb i
  dcpuWe := s.lsu.dcpuWe
  sprCs := s.ops.sprCs (s.opsIn i) 1
  sprWrite := s.ops.sprWe (s.opsIn i)
  sprAddr := s.ops.sprAddr (s.opsIn i)
  sprDat := s.ops.sprDat (s.opsIn i)
  err := i.err
  tag := i.tag

/-- One rising edge of the clock. -/
def clk : DataSide where
  ops := s.ops.clk (s.opsIn i)
  lsu := s.lsu.clk (s.opsIn i) (lsuOp s.ops.idInsn) (s.ops.muxedA (s.opsIn i)) (simm s.ops.idInsn)
  dmmu := s.dmmu.clk (s.dmmuIn i)

/-- The data side after reset with any DTLB contents; there is no data cache and no debug access. -/
def machine : Machine DataSide DataSideIn where
  start s := s.ops = Operands.reset ∧ s.lsu = Lsu.reset ∧ s.dmmu.dtlbDone = false
  legal _ i := i.dcEn = false ∧ i.core.duRead = false ∧ i.core.duWrite = false
  step := clk

/-! ### Invariant -/

/-- INVARIANT: EX does not access memory and SPRs at once, and a finished lookup is that of the
    address of the load or store in EX. -/
structure Inv (s : DataSide) : Prop where
  one : s.ops.sprRead = true ∨ s.ops.sprWrite = true → s.lsu.exLsuOp = .nop
  looked : s.dmmu.dtlbDone = true → s.lsu.exLsuOp = .nop ∨ s.dmmu.dtlb.LooksUp s.dcpuAdr

variable {s i}

theorem lsuOp_of_spr {insn : Insn} (h : opcode insn = 0b101101 ∨ opcode insn = 0b110000) :
    lsuOp insn = .nop := by
  rcases h with h | h <;> simp [lsuOp, h]

/-- A request is no SPR access. -/
theorem sprCs_of_cycstb (hs : s.Inv) (hl : machine.legal s i) (hc : s.dcpuCycstb i = true) :
    (s.dmmuIn i).sprCs = false := by
  have hop : s.lsu.exLsuOp ≠ .nop := by
    simp only [dcpuCycstb, Lsu.dcpuCycstb, Bool.and_eq_true, decide_eq_true_eq] at hc
    exact hc.2
  have hr : s.ops.sprRead = false := by
    by_contra hn
    exact hop (hs.one (.inl (by simpa using hn)))
  have hw : s.ops.sprWrite = false := by
    by_contra hn
    exact hop (hs.one (.inr (by simpa using hn)))
  simp [dmmuIn, Operands.sprCs, opsIn, hl.2.1, hl.2.2, hr, hw]

/-- A frozen EX keeps its address. -/
theorem clk_dcpuAdr (hf : (s.opsIn i).exFreeze = true) : (s.clk i).dcpuAdr = s.dcpuAdr := by
  simp [dcpuAdr, Lsu.dcpuAdr, clk, Lsu.clk, Operands.clk, Operands.operandLatch, hf]

theorem clk_one (hs : s.Inv) (h : (s.clk i).ops.sprRead = true ∨ (s.clk i).ops.sprWrite = true) :
    (s.clk i).lsu.exLsuOp = .nop := by
  simp only [clk, Operands.clk, Lsu.clk, Operands.exLatch] at h ⊢
  split
  · rfl
  · next hclear =>
    rw [if_neg hclear, if_neg hclear] at h
    split
    · next hmove =>
      rw [if_pos hmove, if_pos hmove, decide_eq_true_eq, decide_eq_true_eq] at h
      exact lsuOp_of_spr h
    · next hstay =>
      rw [if_neg hstay, if_neg hstay] at h
      exact hs.one h

theorem clk_looked (hs : s.Inv) (hl : machine.legal s i)
    (hd : (s.clk i).dmmu.dtlbDone = true) :
    (s.clk i).dmmu.dtlb.LooksUp (s.clk i).dcpuAdr := by
  have hen : Dmmu.dtlbEn (s.dmmuIn i) = true := by
    by_contra hn
    simp [clk, Dmmu.clk, hn] at hd
  have hc : s.dcpuCycstb i = true := by
    simp only [Dmmu.dtlbEn, dmmuIn, Bool.and_eq_true] at hen
    exact hen.2
  have hf : (s.opsIn i).exFreeze = true := by
    simp [opsIn, OperandsIn.exFreeze, Lsu.lsuStall_of_cycstb hc]
  rw [clk_dcpuAdr hf]
  exact Tlb.clk_looksUp (i := Dmmu.tlbIn (s.dmmuIn i)) _ hen (sprCs_of_cycstb hs hl hc)

theorem inv_of_reachable (h : machine.Reachable s) : s.Inv := by
  refine h.invariant (I := Inv) (fun s hs => ?_) fun s i hs hl => ?_
  · obtain ⟨hops, hlsu, hdone⟩ := hs
    exact ⟨fun _ => by rw [hlsu]; rfl, fun hd => by rw [hdone] at hd; cases hd⟩
  · exact ⟨clk_one hs, fun hd => .inr (clk_looked hs hl hd)⟩

end DataSide

/-- No load or store passes the data MMU untranslated or without permission: the stored entry for
    its page is valid, matches and permits the access in the present mode, and gives the physical
    page. -/
theorem dmmu_sound (R : DataSide.machine.Run) (t : ℕ) (hen : (R.input t).dmmuEn = true)
    (hc : (R.state t).dmmu.cycstbO ((R.state t).dmmuIn (R.input t)) = true) :
    (R.state t).dmmu.dtlb.Maps (R.state t).dcpuAdr ∧
    ((R.state t).dmmu.dtlb.tr.mem (pageIndex (R.state t).dcpuAdr)).permits (R.state t).lsu.dcpuWe
      (R.input t).core.supv = true ∧
    (R.state t).dmmu.adrO ((R.state t).dmmuIn (R.input t)) =
      ((R.state t).dmmu.dtlb.tr.mem (pageIndex (R.state t).dcpuAdr)).ppn ++
        pageOffset (R.state t).dcpuAdr := by
  have hs := DataSide.inv_of_reachable (R.reachable t)
  refine Dmmu.cycstbO_cases (i := (R.state t).dmmuIn (R.input t)) (R.legal t).1 hen hc ?_
  intro hdone hcyc
  refine (hs.looked hdone).resolve_left ?_
  have hcyc' : (R.state t).lsu.dcpuCycstb (R.input t).duStall (R.input t).ack = true := hcyc
  simp only [Lsu.dcpuCycstb, Bool.and_eq_true, decide_eq_true_eq] at hcyc'
  exact hcyc'.2

/-- l.lwz r3,4(r0) in supervisor mode; page 0 is mapped to page 5 and may be read. -/
def mappedLoad (t : ℕ) : DataSideIn where
  core := freeRunning (fun t => if t = 0 then 0x84600004 else nopFlushed) (fun _ => false) t
  duStall := false
  dcEn := false
  dmmuEn := true
  ack := false
  err := false
  tag := 0

def readDtlb : Tlb DtlbTr :=
  ⟨⟨fun _ => ⟨0, true⟩, 0⟩, ⟨fun _ => ⟨5, false, true, false, true, false⟩, 0⟩⟩

theorem dmmu_sound_load : ∃ R : DataSide.machine.Run, R.input = mappedLoad ∧
    (R.state 3).dmmu.cycstbO ((R.state 3).dmmuIn (R.input 3)) = true ∧
    (R.state 3).dcpuAdr = 4 ∧ (R.state 3).dmmu.dtlb.Maps (R.state 3).dcpuAdr ∧
    (R.state 3).dmmu.adrO ((R.state 3).dmmuIn (R.input 3)) = 0xa004 := by
  refine ⟨.ofInput ⟨Operands.reset, Lsu.reset, ⟨false, readDtlb⟩⟩ mappedLoad ⟨rfl, rfl, rfl⟩
    fun _ => ⟨rfl, rfl, rfl⟩, rfl, by decide, by decide, ?_, by decide⟩
  exact (dmmu_sound _ 3 (by decide) (by decide)).1

end DsdOrsoc.Or1200
