import DsdOrsoc.Schemes.Lanes
import DsdOrsoc.Or1200.Lsu

/-! Loads and stores against a memory of bytes. The load/store unit with its two aligners works on a
    memory of words with byte lanes; the specification (`MemAccess.exec`, `MemAccess.value`) is a
    memory of bytes, big endian, at address base + offset.

        ID   op, base, ofs, data       low part of base + ofs with its carry, alignment check
        EX   ex_lsu_op, dcpu_adr_r     high part and carry: dcpu_adr_o = base + ofs
             reg2mem, dcpu_sel_o       a store changes exactly its lanes
             mem2reg                   a load takes exactly its lanes -/

namespace DsdOrsoc.Or1200
open Schemes Lanes

/-! ### Bytes -/

/-- The number of bytes of an access. -/
def LsuOp.size : LsuOp → ℕ
  | .nop | .lbz | .lbs | .sb => 1
  | .lhz | .lhs | .sh => 2
  | .lwz | .lws | .sw => 4
  | .ld | .sd => 8

/-- A load or store with its operands. -/
structure MemAccess where
  op : LsuOp
  base : BitVec 32
  ofs : BitVec 32
  data : BitVec 32

namespace MemAccess

variable (x : MemAccess) (m : BitVec 32 → BitVec 8)

def adr : BitVec 32 := x.base + x.ofs

def Aligned : Prop := x.adr.toNat % x.op.size = 0

/-- A store changes the addressed bytes. -/
def exec : BitVec 32 → BitVec 8 := if x.op.we then store x.op.size x.adr x.data m else m

/-- A load returns the addressed bytes, extended with zeros or with the sign. -/
def value : BitVec 32 :=
  match x.op with
  | .lbz => (m x.adr).setWidth 32
  | .lbs => (m x.adr).signExtend 32
  | .lhz => (m x.adr ++ m (x.adr + 1)).setWidth 32
  | .lhs => (m x.adr ++ m (x.adr + 1)).signExtend 32
  | _ => m x.adr ++ m (x.adr + 1) ++ m (x.adr + 2) ++ m (x.adr + 3)

end MemAccess

/-! ### Addresses -/

/-- The low part of the sum is computed in ID. -/
theorem precalcSum_low (base ofs : BitVec 32) :
    (precalcSum base ofs).setWidth 2 = byteNo (w := 30) (base + ofs) := by
  apply BitVec.eq_of_toNat_eq
  rw [toNat_byteNo]
  simp only [precalcSum, BitVec.toNat_setWidth, BitVec.toNat_add]
  omega

/-- The split adder: the carry of the low part goes into the high part. -/
theorem Lsu.dcpuAdr_eq {s : Lsu} {base ofs : BitVec 32} (h : s.dcpuAdrR = precalcSum base ofs) :
    s.dcpuAdr base ofs = base + ofs := by
  apply BitVec.eq_of_toNat_eq
  rw [Lsu.dcpuAdr, h, toNat_append_add]
  simp only [precalcSum, BitVec.toNat_setWidth, BitVec.toNat_add, BitVec.extractLsb'_toNat,
    Nat.shiftRight_eq_div_pow]
  omega

/-- The alignment check looks at the right bits. -/
theorem misaligned_eq {op : LsuOp} (hld : op ≠ .ld) (hsd : op ≠ .sd) (sum : BitVec 3) :
    misaligned op sum = decide ((sum.setWidth 2).toNat % op.size ≠ 0) := by
  cases op
  case ld => exact absurd rfl hld
  case sd => exact absurd rfl hsd
  all_goals
    revert sum
    decide

/-! ### Lanes -/

/-- The stores, one by one. -/
theorem store_cases {op : LsuOp} (hwe : op.we = true) (hsd : op ≠ .sd) :
    op = .sb ∨ op = .sh ∨ op = .sw := by
  cases op <;> simp_all [LsuOp.we]

/-- The enables of a store are those of its bytes. -/
theorem dcpuSel_store {op : LsuOp} (hwe : op.we = true) (hsd : op ≠ .sd) {low : BitVec 2}
    (hal : low.toNat % op.size = 0) (k : BitVec 2) :
    (dcpuSel op low).getLsbD (3 - k.toNat) = true ↔
      low.toNat ≤ k.toNat ∧ k.toNat < low.toNat + op.size := by
  revert low k
  rcases store_cases hwe hsd with rfl | rfl | rfl <;> decide

theorem reg2mem_sb (low : BitVec 2) (d : BitVec 32) :
    lane (reg2mem .sb low d) low = d.extractLsb' 0 8 := by
  rcases byte_cases low with rfl | rfl | rfl | rfl
  · exact (lane_append _ _ _ _).1
  · exact (lane_append _ _ _ _).2.1
  · exact (lane_append _ _ _ _).2.2.1
  · exact (lane_append _ _ _ _).2.2.2

theorem reg2mem_sh {low : BitVec 2} (hal : low.toNat % 2 = 0) (d : BitVec 32) :
    lane (reg2mem .sh low d) low = d.extractLsb' 8 8 ∧
      lane (reg2mem .sh low d) (low + 1) = d.extractLsb' 0 8 := by
  rcases byte_cases low with rfl | rfl | rfl | rfl
  · exact ⟨(lane_append _ _ _ _).1, (lane_append _ _ _ _).2.1⟩
  · exact absurd hal (by decide)
  · exact (lane_append _ _ _ _).2.2
  · exact absurd hal (by decide)

theorem reg2mem_sw (d : BitVec 32) :
    lane (reg2mem .sw 0 d) 0 = d.extractLsb' 24 8 ∧ lane (reg2mem .sw 0 d) 1 = d.extractLsb' 16 8 ∧
      lane (reg2mem .sw 0 d) 2 = d.extractLsb' 8 8 ∧ lane (reg2mem .sw 0 d) 3 = d.extractLsb' 0 8 :=
  lane_append _ _ _ _

/-- The lanes of a store carry its bytes. -/
theorem lane_reg2mem {op : LsuOp} (hwe : op.we = true) (hsd : op ≠ .sd) {low : BitVec 2}
    (hal : low.toNat % op.size = 0) (d : BitVec 32) {k : BitVec 2} (hlow : low.toNat ≤ k.toNat)
    (hhigh : k.toNat < low.toNat + op.size) :
    lane (reg2mem op low d) k =
      d.extractLsb' (8 * (op.size - 1 - (k.toNat - low.toNat))) 8 := by
  rcases store_cases hwe hsd with rfl | rfl | rfl <;> simp only [LsuOp.size] at hal hhigh ⊢
  · obtain rfl : k = low := BitVec.eq_of_toNat_eq (by omega)
    simpa using reg2mem_sb k d
  · obtain ⟨h0, h1⟩ := reg2mem_sh hal d
    rcases (by omega : k.toNat = low.toNat ∨ k.toNat = low.toNat + 1) with hk | hk
    · obtain rfl : k = low := BitVec.eq_of_toNat_eq hk
      simpa using h0
    · have hk1 : k = low + 1 := by bv_omega
      rw [hk, Nat.add_sub_cancel_left, hk1]
      exact h1
  · obtain rfl : low = 0 := by bv_omega
    obtain ⟨h0, h1, h2, h3⟩ := reg2mem_sw d
    rcases byte_cases k with rfl | rfl | rfl | rfl
    · exact h0
    · exact h1
    · exact h2
    · exact h3

theorem size_le {op : LsuOp} (hld : op ≠ .ld) (hsd : op ≠ .sd) {low : BitVec 2}
    (hal : low.toNat % op.size = 0) : low.toNat + op.size ≤ 4 := by
  cases op
  case ld => exact absurd rfl hld
  case sd => exact absurd rfl hsd
  all_goals
    revert low
    decide

/-- The aligner moves the addressed byte to the top. -/
theorem lane_shift (x : BitVec 32) (low : BitVec 2) :
    (x <<< (8 * low.toNat)).extractLsb' 24 8 = lane x low := by
  apply BitVec.eq_of_getLsbD_eq
  intro n hn
  rcases byte_cases low with rfl | rfl | rfl | rfl <;>
    simp [lane, BitVec.getLsbD_shiftLeft, hn] <;> grind

/-- And the addressed half-word. -/
theorem half_shift (x : BitVec 32) {low : BitVec 2} (hal : low.toNat % 2 = 0) :
    (x <<< (8 * low.toNat)).extractLsb' 16 16 = lane x low ++ lane x (low + 1) := by
  apply BitVec.eq_of_getLsbD_eq
  intro n hn
  rcases byte_cases low with rfl | rfl | rfl | rfl
  · simp only [lane, BitVec.getLsbD_extractLsb', BitVec.getLsbD_append, BitVec.getLsbD_shiftLeft]
    grind
  · exact absurd hal (by decide)
  · simp only [lane, BitVec.getLsbD_extractLsb', BitVec.getLsbD_append, BitVec.getLsbD_shiftLeft]
    grind
  · exact absurd hal (by decide)

theorem size_dvd {op : LsuOp} (hld : op ≠ .ld) (hsd : op ≠ .sd) : op.size ∣ 4 := by
  cases op <;> simp_all [LsuOp.size]

/-- Alignment shows in the byte number. -/
theorem MemAccess.aligned_iff {x : MemAccess} (hld : x.op ≠ .ld) (hsd : x.op ≠ .sd) :
    x.Aligned ↔ (byteNo (w := 30) x.adr).toNat % x.op.size = 0 := by
  rw [toNat_byteNo, Nat.mod_mod_of_dvd _ (size_dvd hld hsd), MemAccess.Aligned]

/-- STORE: the word memory after a store is the byte memory after it. -/
theorem MemAccess.bytes_store {x : MemAccess} (hwe : x.op.we = true) (hsd : x.op ≠ .sd)
    (hal : x.Aligned) (m : BitVec 30 → BitVec 32) :
    bytes (write m (wordAdr (w := 30) x.adr) (dcpuSel x.op (byteNo (w := 30) x.adr))
      (reg2mem x.op (byteNo (w := 30) x.adr) x.data)) = x.exec (bytes m) := by
  have hld : x.op ≠ .ld := by
    intro h
    rw [h] at hwe
    cases hwe
  have hlow := (MemAccess.aligned_iff hld hsd).1 hal
  rw [MemAccess.exec, if_pos hwe]
  refine bytes_write_store (size_le hld hsd hlow) (dcpuSel_store hwe hsd hlow) ?_
  intro k h1 h2
  exact lane_reg2mem hwe hsd hlow x.data h1 h2

/-- LOAD: what the aligner makes of the word is the value of the bytes. -/
theorem MemAccess.mem2reg_load {x : MemAccess} (hnop : x.op ≠ .nop) (hwe : x.op.we = false)
    (hld : x.op ≠ .ld) (hal : x.Aligned) (m : BitVec 30 → BitVec 32) :
    mem2reg x.op (byteNo (w := 30) x.adr) (m (wordAdr (w := 30) x.adr)) = x.value (bytes m) := by
  have hsd : x.op ≠ .sd := by
    intro h
    rw [h] at hwe
    cases hwe
  have hlow := (MemAccess.aligned_iff hld hsd).1 hal
  have hle := size_le hld hsd hlow
  -- a byte further on is the next lane of the same word
  have hnext : ∀ k, (byteNo (w := 30) x.adr).toNat + k < 4 → bytes m (x.adr + BitVec.ofNat 32 k) =
      lane (m (wordAdr (w := 30) x.adr)) (byteNo (w := 30) x.adr + BitVec.ofNat 2 k) :=
    fun k hk => bytes_add hk
  have hhalf : x.op.size = 2 →
      ((m (wordAdr (w := 30) x.adr)) <<< (8 * (byteNo (w := 30) x.adr).toNat)).extractLsb' 16 16 =
        bytes m x.adr ++ bytes m (x.adr + 1) := by
    intro h2
    rw [h2] at hlow hle
    rw [half_shift _ hlow]
    exact congrArg₂ _ rfl (hnext 1 (by omega)).symm
  have hword : x.op.size = 4 →
      (m (wordAdr (w := 30) x.adr)) <<< (8 * (byteNo (w := 30) x.adr).toNat) =
        bytes m x.adr ++ bytes m (x.adr + 1) ++ bytes m (x.adr + 2) ++ bytes m (x.adr + 3) := by
    intro h4
    rw [h4] at hle
    have h0 : byteNo (w := 30) x.adr = 0 := by bv_omega
    have h1 := hnext 1 (by omega)
    have h2 := hnext 2 (by omega)
    have h3 := hnext 3 (by omega)
    rw [h0] at h1 h2 h3
    have hw := word_lane (m (wordAdr (w := 30) x.adr))
    have hb0 : bytes m x.adr = lane (m (wordAdr (w := 30) x.adr)) 0 :=
      congrArg (lane _) h0
    have hshift (d : BitVec 32) : d <<< (8 * (0 : BitVec 2).toNat) = d := BitVec.shiftLeft_zero d
    rw [h0, hshift]
    exact hw.symm.trans (congrArg₂ _ (congrArg₂ _ (congrArg₂ _ hb0 h1) h2) h3).symm
  have hbyte := lane_shift (m (wordAdr (w := 30) x.adr)) (byteNo (w := 30) x.adr)
  unfold mem2reg MemAccess.value
  cases hop : x.op
  case lbz => exact congrArg (BitVec.setWidth 32) hbyte
  case lbs => exact congrArg (BitVec.signExtend 32) hbyte
  case lhz => exact congrArg (BitVec.setWidth 32) (hhalf (by rw [hop, LsuOp.size]))
  case lhs => exact congrArg (BitVec.signExtend 32) (hhalf (by rw [hop, LsuOp.size]))
  case lwz => exact hword (by rw [hop, LsuOp.size])
  case lws => exact hword (by rw [hop, LsuOp.size])
  case nop => exact absurd hop hnop
  case ld => exact absurd hop hld
  case sd => exact absurd hop hsd
  case sb | sh | sw =>
    rw [hop] at hwe
    cases hwe

/-! ### The unit with its memory -/

/-- The registers of the unit, the operands in EX and the memory. -/
structure LsuMem where
  lsu : Lsu
  exAddrbase : BitVec 32
  exAddrofs : BitVec 32
  lsuDatain : BitVec 32
  mem : BitVec 30 → BitVec 32

/-- The operation in ID with its operands, the freeze and flush lines of the core, and the
    acknowledge of the memory. -/
structure LsuMemIn where
  idLsuOp : LsuOp
  idAddrbase : BitVec 32
  idAddrofs : BitVec 32
  idData : BitVec 32
  core : OperandsIn
  duStall : Bool
  ack : Bool

/-- The access in ID. -/
def LsuMemIn.access (i : LsuMemIn) : Option MemAccess :=
  if i.idLsuOp = .nop then none else some ⟨i.idLsuOp, i.idAddrbase, i.idAddrofs, i.idData⟩

namespace LsuMem

variable (s : LsuMem) (i : LsuMemIn)

def dcpuAdr : BitVec 32 := s.lsu.dcpuAdr s.exAddrbase s.exAddrofs

def dcpuDat : BitVec 32 := reg2mem s.lsu.exLsuOp (s.dcpuAdr.extractLsb' 0 2) s.lsuDatain

def dcpuSelO : BitVec 4 := dcpuSel s.lsu.exLsuOp (s.dcpuAdr.extractLsb' 0 2)

def dcpuCycstb : Bool := s.lsu.dcpuCycstb i.duStall i.ack

/-- `lsu_dataout`, with the addressed word on `dcpu_dat_i`. -/
def lsuDataout : BitVec 32 :=
  mem2reg s.lsu.exLsuOp (s.dcpuAdr.extractLsb' 0 2) (s.mem (s.dcpuAdr.extractLsb' 2 30))

/-- One rising edge of the clock; the memory takes a store with its acknowledge. -/
def clk : LsuMem where
  lsu := s.lsu.clk i.core i.idLsuOp i.idAddrbase i.idAddrofs
  exAddrbase := if i.core.exFreeze then s.exAddrbase else i.idAddrbase
  exAddrofs := if i.core.exFreeze then s.exAddrofs else i.idAddrofs
  lsuDatain := if i.core.exFreeze then s.lsuDatain else i.idData
  mem :=
    if i.ack && s.lsu.dcpuWe then write s.mem (s.dcpuAdr.extractLsb' 2 30) s.dcpuSelO s.dcpuDat
    else s.mem

/-- From reset, with any memory contents, any operations but the two of 64 bits, any freezes and
    flushes; the memory acknowledges, after any time, what is requested. -/
def machine : Machine LsuMem LsuMemIn where
  start s := s.lsu = Lsu.reset
  legal s i := i.idLsuOp ≠ .ld ∧ i.idLsuOp ≠ .sd ∧
    (i.ack = true → s.lsu.dcpuCycstb false false = true)
  step := clk

end LsuMem

/-- The access in EX is the one that was in ID when EX moved last. -/
def accessInEx (R : LsuMem.machine.Run) : ℕ → Option MemAccess
  | 0 => none
  | t + 1 => Operands.exLatch (R.input t).core (accessInEx R t) none (R.input t).access

/-- The accesses that are acknowledged before cycle `t`, in order. -/
def performed (R : LsuMem.machine.Run) : ℕ → List MemAccess
  | 0 => []
  | t + 1 => performed R t ++ if (R.input t).ack then (accessInEx R t).toList else []

/-! ### What EX holds -/

/-- The registers of EX belong to the access `x`. -/
structure HoldsAccess (s : LsuMem) (x : MemAccess) : Prop where
  op : s.lsu.exLsuOp = x.op
  base : s.exAddrbase = x.base
  ofs : s.exAddrofs = x.ofs
  data : s.lsuDatain = x.data
  low : s.lsu.dcpuAdrR = precalcSum x.base x.ofs
  align : s.lsu.exceptAlign = misaligned x.op (precalcSum x.base x.ofs)
  nop : x.op ≠ .nop
  ld : x.op ≠ .ld
  sd : x.op ≠ .sd

/-- EX is empty, or its registers belong to the access in it. -/
def HoldsEx (s : LsuMem) : Option MemAccess → Prop
  | none => s.lsu.exLsuOp = .nop ∧ s.lsu.exceptAlign = false
  | some x => HoldsAccess s x

section Step

variable {s : LsuMem} {i : LsuMemIn} {x : MemAccess}

theorem misaligned_nop (sum : BitVec 3) : misaligned .nop sum = false := rfl

/-- The latches of EX move together: they are cleared, loaded or kept. -/
theorem exLatch_cases (i : OperandsIn) :
    (∀ {α : Type} (old clear new : α), Operands.exLatch i old clear new = clear) ∨
      i.exFreeze = false ∧
        (∀ {α : Type} (old clear new : α), Operands.exLatch i old clear new = new) ∨
      i.exFreeze = true ∧
        (∀ {α : Type} (old clear new : α), Operands.exLatch i old clear new = old) := by
  unfold Operands.exLatch
  by_cases hc : (!i.exFreeze && i.idFreeze || i.flushpipe) = true
  · exact .inl fun _ _ _ => if_pos hc
  · by_cases hf : (!i.exFreeze) = true
    · refine .inr (.inl ⟨by simpa using hf, fun _ _ _ => ?_⟩)
      rw [if_neg hc, if_pos hf]
    · refine .inr (.inr ⟨by simpa using hf, fun _ _ _ => ?_⟩)
      rw [if_neg hc, if_neg hf]

/-- STEP: EX follows the access. -/
theorem HoldsEx.clk {a : Option MemAccess} (h : HoldsEx s a) (hld : i.idLsuOp ≠ .ld)
    (hsd : i.idLsuOp ≠ .sd) :
    HoldsEx (s.clk i) (Operands.exLatch i.core a none i.access) := by
  have hop : (s.clk i).lsu.exLsuOp = Operands.exLatch i.core s.lsu.exLsuOp .nop i.idLsuOp := rfl
  have hal : (s.clk i).lsu.exceptAlign = Operands.exLatch i.core s.lsu.exceptAlign false
    (misaligned i.idLsuOp (precalcSum i.idAddrbase i.idAddrofs)) := rfl
  rcases exLatch_cases i.core with hl | ⟨hf, hl⟩ | ⟨hf, hl⟩ <;> rw [hl] at hop hal ⊢
  · exact ⟨hop, hal⟩
  · by_cases hn : i.idLsuOp = .nop
    · rw [LsuMemIn.access, if_pos hn]
      exact ⟨hop.trans hn, hal.trans (by rw [hn, misaligned_nop])⟩
    · rw [LsuMemIn.access, if_neg hn]
      refine ⟨hop, ?_, ?_, ?_, ?_, hal, hn, hld, hsd⟩ <;> simp [LsuMem.clk, Lsu.clk, hf]
  · cases a with
    | none => exact ⟨hop.trans h.1, hal.trans h.2⟩
    | some x =>
      refine ⟨hop.trans h.op, ?_, ?_, ?_, ?_, hal.trans h.align, h.nop, h.ld, h.sd⟩
      · simpa [LsuMem.clk, hf] using h.base
      · simpa [LsuMem.clk, hf] using h.ofs
      · simpa [LsuMem.clk, hf] using h.data
      · simpa [LsuMem.clk, Lsu.clk, hf] using h.low

theorem HoldsAccess.dcpuAdr (h : HoldsAccess s x) : s.dcpuAdr = x.adr := by
  rw [LsuMem.dcpuAdr, h.base, h.ofs]
  exact Lsu.dcpuAdr_eq h.low

theorem HoldsAccess.exceptAlign (h : HoldsAccess s x) : s.lsu.exceptAlign = true ↔ ¬ x.Aligned := by
  rw [h.align, misaligned_eq h.ld h.sd, precalcSum_low, MemAccess.aligned_iff h.ld h.sd,
    decide_eq_true_eq]
  rfl

/-- A request is made exactly for an aligned access. -/
theorem HoldsAccess.dcpuCycstb (h : HoldsAccess s x) (duStall ack : Bool) :
    s.lsu.dcpuCycstb duStall ack = true ↔ duStall = false ∧ ack = false ∧ x.Aligned := by
  have hal := h.exceptAlign
  simp only [Lsu.dcpuCycstb, h.op, h.nop, ne_eq, not_false_eq_true, decide_true, Bool.and_true,
    Bool.not_eq_true', Bool.or_eq_false_iff, and_assoc, ← Bool.not_eq_true s.lsu.exceptAlign, hal,
    not_not]

theorem HoldsAccess.lsuDataout (h : HoldsAccess s x) (hal : x.Aligned) (hwe : x.op.we = false) :
    s.lsuDataout = x.value (bytes s.mem) := by
  rw [LsuMem.lsuDataout, h.dcpuAdr, h.op]
  exact x.mem2reg_load h.nop hwe h.ld hal s.mem

/-- STEP: an acknowledged access is performed on the bytes. -/
theorem HoldsAccess.clk_mem (h : HoldsAccess s x) (hack : i.ack = true) (hal : x.Aligned) :
    bytes (s.clk i).mem = x.exec (bytes s.mem) := by
  cases hwe : x.op.we with
  | false => simp [LsuMem.clk, Lsu.dcpuWe, h.op, hwe, MemAccess.exec]
  | true =>
    have hmem : (s.clk i).mem = write s.mem (s.dcpuAdr.extractLsb' 2 30) s.dcpuSelO s.dcpuDat := by
      simp [LsuMem.clk, Lsu.dcpuWe, h.op, hwe, hack]
    rw [hmem, LsuMem.dcpuSelO, LsuMem.dcpuDat, h.dcpuAdr, h.op, h.data]
    exact x.bytes_store hwe h.sd hal s.mem

end Step

section Run

variable (R : LsuMem.machine.Run)

/-- RUN: what EX holds. -/
theorem holdsEx_run : ∀ t, HoldsEx (R.state t) (accessInEx R t)
  | 0 => by
    have h0 : (R.state 0).lsu = Lsu.reset := R.start
    exact ⟨by rw [h0]; rfl, by rw [h0]; rfl⟩
  | t + 1 => by
    obtain ⟨hld, hsd, -⟩ := R.legal t
    rw [R.next t]
    exact (holdsEx_run t).clk hld hsd

/-- RUN: the memory has performed the acknowledged accesses. -/
theorem bytes_run : ∀ t, bytes (R.state t).mem =
    (performed R t).foldl (fun m x => x.exec m) (bytes (R.state 0).mem)
  | 0 => rfl
  | t + 1 => by
    obtain ⟨-, -, hreq⟩ := R.legal t
    have hex := holdsEx_run R t
    rw [performed, List.foldl_append, ← bytes_run t, R.next t]
    cases hack : (R.input t).ack with
    | false =>
      have hmem : ((R.state t).clk (R.input t)).mem = (R.state t).mem := by
        simp [LsuMem.clk, hack]
      exact congrArg bytes hmem
    | true =>
      -- only a pending request is acknowledged, so EX holds an aligned access
      cases hx : accessInEx R t with
      | none =>
        rw [hx] at hex
        have hcyc := hreq hack
        simp [Lsu.dcpuCycstb, hex.1] at hcyc
      | some x =>
        rw [hx] at hex
        exact hex.clk_mem hack ((hex.dcpuCycstb false false).1 (hreq hack)).2.2

/-- Loads and stores work on a big-endian memory of bytes at base + offset. The memory has performed
    the acknowledged accesses in order; a load in EX returns the value of its bytes; an aligned
    access is requested until it is acknowledged, and a misaligned one raises `except_align` and is
    never requested. -/
theorem big_endian_memory (t : ℕ) :
    bytes (R.state t).mem =
        (performed R t).foldl (fun m x => x.exec m) (bytes (R.state 0).mem) ∧
      ∀ x, accessInEx R t = some x →
        (R.state t).dcpuAdr = x.adr ∧
        (x.Aligned → (R.state t).lsu.exceptAlign = false ∧
          (R.state t).dcpuCycstb (R.input t) = (!(R.input t).duStall && !(R.input t).ack) ∧
          (x.op.we = false → (R.state t).lsuDataout = x.value (bytes (R.state t).mem))) ∧
        (¬ x.Aligned → (R.state t).lsu.exceptAlign = true ∧
          (R.state t).dcpuCycstb (R.input t) = false ∧ (R.input t).ack = false) := by
  refine ⟨bytes_run R t, ?_⟩
  intro x hx
  have hex : HoldsEx (R.state t) (some x) := hx ▸ holdsEx_run R t
  have hcyc := hex.dcpuCycstb (R.input t).duStall (R.input t).ack
  obtain ⟨-, -, hreq⟩ := R.legal t
  refine ⟨hex.dcpuAdr, ?_, ?_⟩
  · intro hal
    refine ⟨by simpa [hal] using hex.exceptAlign, ?_, hex.lsuDataout hal⟩
    rw [Bool.eq_iff_iff, LsuMem.dcpuCycstb, hcyc]
    simp [hal]
  · intro hal
    refine ⟨hex.exceptAlign.2 hal, ?_, ?_⟩
    · rw [LsuMem.dcpuCycstb, ← Bool.not_eq_true, hcyc]
      tauto
    · rw [← Bool.not_eq_true]
      intro hack
      exact hal ((hex.dcpuCycstb false false).1 (hreq hack)).2.2

end Run

/-! ### Overlapping accesses -/

/-- An operation in ID while the pipeline moves. -/
def LsuMemIn.issue (x : MemAccess) (ack : Bool) : LsuMemIn where
  idLsuOp := x.op
  idAddrbase := x.base
  idAddrofs := x.ofs
  idData := x.data
  core := ⟨nopFlushed, false, false, false, false, 0, 0, 0, 0, false, false, false, 0, 0⟩
  duStall := false
  ack := ack

/-- A word is stored at 0x100, with a carry out of the low part of the address. -/
def storeWord : MemAccess := ⟨.sw, 0x103, 0xfffffffd, 0x11223384⟩

/-- Then its first byte is stored. -/
def storeByte : MemAccess := ⟨.sb, 0xfe, 2, 0x5500009c⟩

/-- Then its upper half-word is loaded. -/
def loadHalf : MemAccess := ⟨.lhs, 0x100, 0, 0⟩

/-- And at last a word at its lower half. -/
def loadWord : MemAccess := ⟨.lwz, 0x100, 2, 0⟩

def overlapInput : ℕ → LsuMemIn
  | 0 => .issue storeWord false
  | 1 => .issue storeByte true
  | 2 => .issue loadHalf true
  | 3 => .issue loadWord true
  | _ => .issue ⟨.nop, 0, 0, 0⟩ false

def LsuMem.cleared : LsuMem := ⟨Lsu.reset, 0, 0, 0, fun _ => 0⟩

theorem overlapInput_legal : ∀ t, LsuMem.machine.legal
    (LsuMem.machine.trace LsuMem.cleared overlapInput t) (overlapInput t)
  | 0 => ⟨by decide, by decide, fun h => absurd h Bool.false_ne_true⟩
  | 1 => ⟨by decide, by decide, fun _ => by decide⟩
  | 2 => ⟨by decide, by decide, fun _ => by decide⟩
  | 3 => ⟨by decide, by decide, fun _ => by decide⟩
  | _ + 4 => ⟨LsuOp.noConfusion, LsuOp.noConfusion, fun h => absurd h Bool.false_ne_true⟩

def overlapRun : LsuMem.machine.Run := .ofInput LsuMem.cleared overlapInput rfl overlapInput_legal

/-- The half-word has the byte of the later store before the second byte of the word, and its sign;
    the word load is misaligned. -/
theorem big_endian_memory_overlap :
    performed overlapRun 3 = [storeWord, storeByte] ∧ accessInEx overlapRun 3 = some loadHalf ∧
      (overlapRun.state 3).lsuDataout = 0xffff9c22 ∧ accessInEx overlapRun 4 = some loadWord ∧
      (overlapRun.state 4).lsu.exceptAlign = true := by
  obtain ⟨hmem, hload⟩ := big_endian_memory overlapRun 3
  obtain ⟨-, hal, -⟩ := hload loadHalf rfl
  obtain ⟨-, hword⟩ := big_endian_memory overlapRun 4
  obtain ⟨-, -, hmis⟩ := hword loadWord rfl
  refine ⟨rfl, rfl, ?_, rfl, (hmis (by unfold MemAccess.Aligned; decide)).1⟩
  rw [(hal (by unfold MemAccess.Aligned; decide)).2.2 rfl, hmem]
  decide

end DsdOrsoc.Or1200
