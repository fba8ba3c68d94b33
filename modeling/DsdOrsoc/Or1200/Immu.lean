import DsdOrsoc.Or1200.Tlb
import DsdOrsoc.Schemes.Machine

/-! The instruction MMU `or1200_immu_top` with its ITLB. The lookup of a page is ready one cycle
    after its address, so a request passes only in the second cycle of a page, and only if nothing
    has taken the index of the ITLB away in the first:

        cycle        t-1                  t
        address      page P               page P       else page_cross
        ITLB         reads entry of P     puts it out
        SPR access   none                 none         else itlb_en_r, itlb_spr_access -/

namespace DsdOrsoc.Or1200
open Schemes

/-- The translate word of the ITLB. -/
structure ItlbTr where
  ppn : BitVec 19
  uxe : Bool
  sxe : Bool
  ci : Bool

/-- `tlb_tr_ram_in` of the ITLB. -/
def ItlbTr.ofSpr (d : BitVec 32) : ItlbTr where
  ppn := pageNumber d
  uxe := d.getLsbD 7
  sxe := d.getLsbD 6
  ci := d.getLsbD 1

/-- Instructions of the page may be executed in the mode. -/
def ItlbTr.executable (e : ItlbTr) (supv : Bool) : Bool := if supv then e.sxe else e.uxe

/-- The registers of `or1200_immu_top` and its ITLB. -/
structure Immu where
  icpuVpnR : BitVec 19
  itlbEnR : Bool
  disSprAccessFrstClk : Bool
  disSprAccessScndClk : Bool
  sprDatReg : BitVec 32
  itlb : Tlb ItlbTr

structure ImmuIn where
  immuEn : Bool
  supv : Bool
  icpuAdr : BitVec 32
  icpuCycstb : Bool
  sprCs : Bool
  sprWrite : Bool
  sprAddr : BitVec 32
  sprDat : BitVec 32
  rty : Bool
  err : Bool
  tag : BitVec 4

namespace Immu

def reset (itlb : Tlb ItlbTr) : Immu where
  icpuVpnR := 0
  itlbEnR := false
  disSprAccessFrstClk := false
  disSprAccessScndClk := false
  sprDatReg := 0
  itlb := itlb

variable (s : Immu) (i : ImmuIn)

def pageCross : Bool := decide (pageNumber i.icpuAdr ≠ s.icpuVpnR)

def itlbSprAccess : Bool := i.sprCs && !s.disSprAccessScndClk

def itlbEn : Bool := i.immuEn && i.icpuCycstb

def itlbDone : Bool := s.itlbEnR && !s.pageCross i

def fault : Bool := s.itlbDone i && !s.itlb.tr.doq.executable i.supv

def miss : Bool := s.itlbDone i && !s.itlb.hit i.icpuAdr

/-- `qmemimmu_cycstb_o`. -/
def cycstbO : Bool :=
  if i.immuEn then
    !(s.miss i || s.fault i) && i.icpuCycstb && !s.pageCross i && s.itlbDone i &&
      !s.itlbSprAccess i
  else i.icpuCycstb && !s.pageCross i

/-- `qmemimmu_adr_o`: the two low bits are always zero. -/
def adrO : BitVec 32 :=
  if i.immuEn && s.itlbDone i then s.itlb.tr.doq.ppn ++ i.icpuAdr.extractLsb' 2 11 ++ 0#2
  else s.icpuVpnR ++ i.icpuAdr.extractLsb' 2 11 ++ 0#2

/-- `qmemimmu_ci_o`. -/
def ciO : Bool := if i.immuEn then s.itlb.tr.doq.ci else false

def icpuErrO : Bool := s.miss i || s.fault i || i.err

/-- `icpu_tag_o`: TLB miss, page fault or the tag of the memory. -/
def icpuTagO : BitVec 4 := if s.miss i then 0xd else if s.fault i then 0xc else i.tag

/-- The pins of the ITLB. -/
def tlbIn : TlbIn where
  tlbEn := itlbEn i
  vaddr := i.icpuAdr
  sprCs := s.itlbSprAccess i
  sprWrite := i.sprWrite
  sprAddr := i.sprAddr
  sprDat := i.sprDat

/-- `itlb_dat_o`. -/
def itlbDatO : BitVec 32 :=
  if !i.sprWrite && !(s.tlbIn i).tm then
    s.itlb.mr.doq.vpn ++ (s.tlbIn i).tlbIndex ++ 0#12 ++ BitVec.ofBool s.itlb.mr.doq.v
  else if !i.sprWrite && (s.tlbIn i).tm then
    s.itlb.tr.doq.ppn ++ 0#5 ++ BitVec.ofBool s.itlb.tr.doq.uxe ++
      BitVec.ofBool s.itlb.tr.doq.sxe ++ 0#4 ++ BitVec.ofBool s.itlb.tr.doq.ci ++ 0#1
  else 0

def sprDatO : BitVec 32 := if s.itlbSprAccess i then s.itlbDatO i else s.sprDatReg

/-- One rising edge of the clock. -/
def clk : Immu where
  icpuVpnR := pageNumber i.icpuAdr
  itlbEnR := itlbEn i && !s.itlbSprAccess i
  disSprAccessFrstClk :=
    if !i.rty then false else if i.sprCs then true else s.disSprAccessFrstClk
  disSprAccessScndClk :=
    if !i.rty then false else if s.disSprAccessFrstClk then true else s.disSprAccessScndClk
  sprDatReg := if s.itlbSprAccess i then s.itlbDatO i else s.sprDatReg
  itlb := s.itlb.clk ItlbTr.ofSpr (s.tlbIn i)

/-- The unit after reset with any ITLB contents, under any inputs. -/
def machine : Machine Immu ImmuIn where
  start s := ∃ itlb, s = reset itlb
  legal _ _ := True
  step := clk

/-! ### The lookup of the last cycle -/

/-- INVARIANT: an enabled lookup is that of the page of the last cycle. -/
def Looked (s : Immu) : Prop :=
  s.itlbEnR = true → ∀ a, pageNumber a = s.icpuVpnR → s.itlb.LooksUp a

variable {s i}

theorem looked_clk : Looked (s.clk i) := by
  intro hen a ha
  have hen' : itlbEn i = true ∧ s.itlbSprAccess i = false := by simpa [clk] using hen
  exact (Tlb.clk_looksUp (i := s.tlbIn i) _ hen'.1 hen'.2).congr ha

theorem looked_of_reachable (h : machine.Reachable s) : Looked s := by
  cases h with
  | start h =>
    obtain ⟨itlb, rfl⟩ := h
    intro hen
    cases hen
  | step _ _ => exact looked_clk

/-- What a passed request has been checked for. -/
theorem cycstbO_cases (hs : Looked s) (hen : i.immuEn = true) (hc : s.cycstbO i = true) :
    s.itlb.Maps i.icpuAdr ∧
    (s.itlb.tr.mem (pageIndex i.icpuAdr)).executable i.supv = true ∧
    s.adrO i = (s.itlb.tr.mem (pageIndex i.icpuAdr)).ppn ++ i.icpuAdr.extractLsb' 2 11 ++ 0#2 := by
  simp only [cycstbO, hen, if_true, Bool.and_eq_true, Bool.not_eq_true', Bool.or_eq_false_iff] at hc
  obtain ⟨⟨⟨⟨⟨hmiss, hfault⟩, -⟩, hcross⟩, hdone⟩, -⟩ := hc
  have hpage : pageNumber i.icpuAdr = s.icpuVpnR := by simpa [pageCross] using hcross
  have henr : s.itlbEnR = true := by
    simp only [itlbDone, Bool.and_eq_true] at hdone
    exact hdone.1
  have hlook := hs henr _ hpage
  have hhit : s.itlb.hit i.icpuAdr = true := by simpa [miss, hdone] using hmiss
  have hexe : s.itlb.tr.doq.executable i.supv = true := by simpa [fault, hdone] using hfault
  rw [← hlook.tr_doq]
  exact ⟨hlook.maps hhit, hexe, by rw [adrO, hen, hdone]; rfl⟩

end Immu

/-- No request passes the instruction MMU untranslated or without permission: with the MMU on, the
    stored entry for its page is valid, matches and permits execution in the present mode, and gives
    the physical page; with the MMU off, the address is passed. -/
theorem immu_sound (R : Immu.machine.Run) (t : ℕ) :
    ((R.input t).immuEn = true → (R.state t).cycstbO (R.input t) = true →
      (R.state t).itlb.Maps (R.input t).icpuAdr ∧
      ((R.state t).itlb.tr.mem (pageIndex (R.input t).icpuAdr)).executable (R.input t).supv = true ∧
      (R.state t).adrO (R.input t) =
        ((R.state t).itlb.tr.mem (pageIndex (R.input t).icpuAdr)).ppn ++
          (R.input t).icpuAdr.extractLsb' 2 11 ++ 0#2) ∧
    ((R.input t).immuEn = false → (R.state t).cycstbO (R.input t) = true →
      (R.state t).adrO (R.input t) = (R.input t).icpuAdr.extractLsb' 2 30 ++ 0#2) := by
  refine ⟨Immu.cycstbO_cases (Immu.looked_of_reachable (R.reachable t)), fun hen hc => ?_⟩
  have hpage : pageNumber (R.input t).icpuAdr = (R.state t).icpuVpnR := by
    simp only [Immu.cycstbO, hen, Bool.false_eq_true, if_false, Bool.and_eq_true] at hc
    simpa [Immu.pageCross] using hc.2
  rw [Immu.adrO, hen, Bool.false_and, if_neg Bool.false_ne_true, ← hpage, pageNumber]
  apply BitVec.eq_of_getLsbD_eq
  intro n hn
  simp only [BitVec.getLsbD_append, BitVec.getLsbD_extractLsb']
  grind

/-- A user program is fetched at 0x2000, which is mapped to 0x6000. -/
def userFetch (_ : ℕ) : ImmuIn where
  immuEn := true
  supv := false
  icpuAdr := 0x2004
  icpuCycstb := true
  sprCs := false
  sprWrite := false
  sprAddr := 0
  sprDat := 0
  rty := true
  err := false
  tag := 0

def userItlb : Tlb ItlbTr := ⟨⟨fun _ => ⟨0, true⟩, 0⟩, ⟨fun _ => ⟨3, true, false, false⟩, 0⟩⟩

theorem immu_sound_user : ∃ R : Immu.machine.Run, R.input = userFetch ∧
    (R.state 1).cycstbO (R.input 1) = true ∧ (R.state 1).itlb.Maps (R.input 1).icpuAdr ∧
    (R.state 1).adrO (R.input 1) = 0x6004 := by
  refine ⟨.ofInput (Immu.reset userItlb) userFetch ⟨_, rfl⟩ fun _ => trivial, rfl, by decide, ?_,
    by decide⟩
  exact ((immu_sound _ 1).1 (by decide) (by decide)).1

end DsdOrsoc.Or1200
