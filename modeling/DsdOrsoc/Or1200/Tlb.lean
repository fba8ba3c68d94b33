import DsdOrsoc.Schemes.SyncRam

/-! The translation buffers `or1200_immu_tlb` and `or1200_dmmu_tlb`: 64 entries, direct mapped,
    pages of 8 KB. Both consist of a RAM of match words and a RAM of translate words behind one
    index; they differ in the protection bits of the translate word `τ` only.

        address   [31:19] tag ──compared──▶ hit
                  [18:13] index ──▶ mr, tr ──▶ tag, valid bit, page, protection (a cycle later)
                  [12:0]  offset -/

namespace DsdOrsoc.Or1200
open Schemes

/-! ### Addresses -/

def pageNumber (a : BitVec 32) : BitVec 19 := a.extractLsb' 13 19

def pageTag (a : BitVec 32) : BitVec 13 := a.extractLsb' 19 13

def pageIndex (a : BitVec 32) : BitVec 6 := a.extractLsb' 13 6

def pageOffset (a : BitVec 32) : BitVec 13 := a.extractLsb' 0 13

theorem pageIndex_eq (a : BitVec 32) : pageIndex a = (pageNumber a).extractLsb' 0 6 := by
  apply BitVec.eq_of_getLsbD_eq
  intro n hn
  have hn' : n < 19 := by omega
  simp [pageIndex, pageNumber, hn, hn']

theorem pageIndex_congr {a b : BitVec 32} (h : pageNumber a = pageNumber b) :
    pageIndex a = pageIndex b := by
  rw [pageIndex_eq, pageIndex_eq, h]

/-! ### The buffer -/

/-- The match word of an entry. -/
structure TlbMatch where
  vpn : BitVec 13
  v : Bool

structure Tlb (τ : Type) where
  mr : SyncRam (BitVec 6) TlbMatch
  tr : SyncRam (BitVec 6) τ

structure TlbIn where
  tlbEn : Bool
  vaddr : BitVec 32
  sprCs : Bool
  sprWrite : Bool
  sprAddr : BitVec 32
  sprDat : BitVec 32

/-- `OR1200_ITLB_TM_ADDR`: the access is to the translate words. -/
def TlbIn.tm (i : TlbIn) : Bool := i.sprAddr.getLsbD 7

def TlbIn.tlbIndex (i : TlbIn) : BitVec 6 :=
  if i.sprCs then i.sprAddr.extractLsb' 0 6 else pageIndex i.vaddr

namespace Tlb

variable {τ : Type} (trIn : BitVec 32 → τ) (s : Tlb τ) (i : TlbIn) (a : BitVec 32)

def hit : Bool := decide (s.mr.doq.vpn = pageTag a) && s.mr.doq.v

/-- One rising edge of the clock; `trIn` packs the data of an SPR write into a translate word. -/
def clk : Tlb τ where
  mr := s.mr.clk (i.tlbEn || (i.sprCs && !i.tm)) (i.sprCs && i.sprWrite && !i.tm) i.tlbIndex
    ⟨pageTag i.sprDat, i.sprDat.getLsbD 0⟩
  tr := s.tr.clk (i.tlbEn || (i.sprCs && i.tm)) (i.sprCs && i.sprWrite && i.tm) i.tlbIndex
    (trIn i.sprDat)

/-- The stored entry for the page of an address is valid and matches it. -/
def Maps : Prop :=
  (s.mr.mem (pageIndex a)).v = true ∧ (s.mr.mem (pageIndex a)).vpn = pageTag a

/-- Both RAMs put out the entry for the page of an address. -/
def LooksUp : Prop := s.mr.addrReg = pageIndex a ∧ s.tr.addrReg = pageIndex a

variable {s i a}

/-- A lookup takes one cycle and needs the index for itself. -/
theorem clk_looksUp (hen : i.tlbEn = true) (hspr : i.sprCs = false) :
    (s.clk trIn i).LooksUp i.vaddr := by
  simp [LooksUp, clk, TlbIn.tlbIndex, hen, hspr]

theorem LooksUp.congr {b : BitVec 32} (h : s.LooksUp a) (hab : pageNumber b = pageNumber a) :
    s.LooksUp b := by
  rw [LooksUp, pageIndex_congr hab]
  exact h

theorem LooksUp.maps (h : s.LooksUp a) (hhit : s.hit a = true) : s.Maps a := by
  simp only [hit, SyncRam.doq, h.1, Bool.and_eq_true, decide_eq_true_eq] at hhit
  exact ⟨hhit.2, hhit.1⟩

theorem LooksUp.tr_doq (h : s.LooksUp a) : s.tr.doq = s.tr.mem (pageIndex a) := by
  rw [SyncRam.doq, h.2]

end Tlb

end DsdOrsoc.Or1200
