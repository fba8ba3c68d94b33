import DsdOrsoc.Or1200.Alu
import DsdOrsoc.Or1200.LoadStore
import DsdOrsoc.Or1200.Multiplication

/-! The control unit `or1200_ctrl` decodes as the instruction set does: the fields and enables that
    it takes from a word are those of the operation (`Controls`). The opcode alone decides most of
    them, one row of the table after the other; the rest is fields. -/

namespace DsdOrsoc.Or1200
open Isa

/-! ### What an operation asks for -/

namespace Isa.Operation

variable (op : Operation)

@[simp] def rfwb : RfwbOp :=
  match op with
  | .jump _ true | .jumpReg _ true => .lr
  | .movhi .. | .arith .. | .cmov .. | .ff1 .. => .alu
  | .load .. => .lsu
  | _ => .nop

@[simp] def aluOp : BitVec 4 :=
  match op with
  | .movhi .. => aluopMovhi
  | .arith f .. => f.aluOp
  | .cmov .. => 14
  | .ff1 .. => 15
  | .set .. => 13
  | _ => aluopNop

@[simp] def branchOp : BranchOp :=
  match op with
  | .jump .. => .j
  | .jumpReg .. => .jr
  | .branch _ on => if on then .bf else .bnf
  | _ => .nop

@[simp] def lsuOp : LsuOp :=
  match op with
  | .load op .. | .store op .. => op
  | _ => .nop

/-- The register on port A. -/
@[simp] def srcA : Option Gpr :=
  match op with
  | .arith _ _ a _ | .cmov _ a _ | .ff1 _ a | .set _ a _ | .load _ _ a _ | .store _ a _ _ => some a
  | _ => none

/-- The second operand. -/
@[simp] def srcB : Option Src :=
  match op with
  | .jumpReg b _ => some (.reg b)
  | .movhi _ k => some (.imm (k.setWidth 32))
  | .arith _ _ _ b | .set _ _ b => some b
  | .cmov _ _ b | .store _ _ b _ => some (.reg b)
  | _ => none

/-- The displacement of a jump or branch. -/
@[simp] def disp : Option (BitVec 26) :=
  match op with
  | .jump ofs _ | .branch ofs _ => some ofs
  | _ => none

/-- The offset of a load or store. -/
@[simp] def ofs : Option (BitVec 16) :=
  match op with
  | .load _ _ _ k | .store _ _ _ k => some k
  | _ => none

/-- A load or a store. -/
@[simp] def stores : Option Bool :=
  match op with
  | .load .. => some false
  | .store .. => some true
  | _ => none

/-- The operation on two operands. -/
@[simp] def fn : Option Arith :=
  match op with
  | .arith f .. => some f
  | _ => none

@[simp] def cond : Option Cond :=
  match op with
  | .set c .. => some c
  | _ => none

end Isa.Operation

/-- The control signals of the word `w` are those of the operation `op`. -/
structure Controls (w : Insn) (op : Operation) : Prop where
  rfwb : rfwbOp w = op.rfwb
  dest : ∀ d, op.dest = some d → rfAddrw w = d
  alu : aluOp w = op.aluOp
  branch : branchOp w = op.branchOp
  lsu : lsuOp w = op.lsuOp
  stores : ∀ b, op.stores = some b → isLsu w = true ∧ (lsuOp w).we = b
  srcA : ∀ r, op.srcA = some r → rfRda w = true ∧ rA w = r
  regB : ∀ r, op.srcB = some (.reg r) → rfRdb w = true ∧ selImm w = false ∧ rB w = r
  immB : ∀ k, op.srcB = some (.imm k) → selImm w = true ∧ simm w = k
  disp : ∀ ofs, op.disp = some ofs → w.extractLsb' 0 26 = ofs
  ofs : ∀ k, op.ofs = some k → simm w = k.signExtend 32
  shift : ∀ f, op.fn = some f → f.aluOp = 8 → Arith.ofShift (w.extractLsb' 6 2) = f
  cond : ∀ c, op.cond = some c → Cond.codes.lookup (w.extractLsb' 21 5) = some c
  spr : opcode w ≠ 0b110000 ∧ opcode w ≠ 0b101101
  mac : macOp w = macopNop ∧ isMacrc w = false

/-! ### Opcodes -/

namespace Isa.Format

variable (w : Insn) (fmt : Format)

@[simp] def rfwb : RfwbOp :=
  match fmt with
  | .jump true | .jumpReg true => .lr
  | .movhi | .signed _ | .unsigned _ | .shift | .alu => .alu
  | .load _ => .lsu
  | _ => .nop

@[simp] def addrw : Gpr :=
  match fmt with
  | .jump true | .jumpReg true => 9
  | _ => w.extractLsb' 21 5

@[simp] def aluOp : BitVec 4 :=
  match fmt with
  | .movhi => aluopMovhi
  | .signed f | .unsigned f => f.aluOp
  | .shift => 8
  | .setImm | .setReg => 13
  | .alu => w.extractLsb' 0 4
  | _ => aluopNop

@[simp] def branchOp : BranchOp :=
  match fmt with
  | .jump _ => .j
  | .jumpReg _ => .jr
  | .branch on => if on then .bf else .bnf
  | _ => .nop

@[simp] def lsuOp : LsuOp :=
  match fmt with
  | .load op | .store op => op
  | _ => .nop

@[simp] def stores : Option Bool :=
  match fmt with
  | .load _ => some false
  | .store _ => some true
  | _ => none

/-- The instruction has a register rA. -/
@[simp] def readsA : Bool :=
  match fmt with
  | .jump _ | .jumpReg _ | .branch _ | .nop | .movhi => false
  | _ => true

/-- The instruction has a register rB. -/
@[simp] def readsB : Bool :=
  match fmt with
  | .jumpReg _ | .store _ | .alu | .setReg => true
  | _ => false

/-- The immediate value. -/
@[simp] def imm : Option (BitVec 32) :=
  match fmt with
  | .load _ | .signed _ | .setImm => some ((w.extractLsb' 0 16).signExtend 32)
  | .movhi | .unsigned _ | .shift => some ((w.extractLsb' 0 16).setWidth 32)
  | .store _ =>
    some ((w.extractLsb' 21 5 ++ w.extractLsb' 0 11 : BitVec 16).signExtend 32)
  | _ => none

end Isa.Format

/-- What the opcode says, in the words of the control unit and of the instruction set. -/
structure Signals (w : Insn) (fmt : Format) : Prop where
  rfwb : rfwbOp w = fmt.rfwb
  addrw : rfAddrw w = fmt.addrw w
  alu : aluOp w = fmt.aluOp w
  branch : branchOp w = fmt.branchOp
  lsu : lsuOp w = fmt.lsuOp
  stores : ∀ b, fmt.stores = some b → isLsu w = true ∧ (lsuOp w).we = b
  readsA : rfRda w = fmt.readsA
  readsB : fmt.readsB = true → rfRdb w = true ∧ selImm w = false
  imm : ∀ k, fmt.imm w = some k → simm w = k ∧ (fmt.readsB = false → selImm w = true)
  spr : opcode w ≠ 0b110000 ∧ opcode w ≠ 0b101101
  mac : macOp w = macopNop
  movhi : opcode w = 0b000110 → fmt = .movhi
  plain : ∀ f, fmt = .signed f ∨ fmt = .unsigned f → f.aluOp ≠ 8

section Opcode

variable {w : Insn} {fmt : Format}

theorem rfRda_eq : rfRda w = ((opcode w).getLsbD 5 || decide (opcode w = 0b010011)) := by
  simp [rfRda, opcode]

theorem rfRdb_eq : rfRdb w = (opcode w).getLsbD 4 := by
  simp [rfRdb, opcode]

theorem signals_of_codes (h : (opcode w, fmt) ∈ Format.codes) : Signals w fmt := by
  simp only [Format.codes, List.mem_cons, Prod.mk.injEq, List.not_mem_nil, or_false] at h
  rcases h with ⟨h, rfl⟩ | ⟨h, rfl⟩ | ⟨h, rfl⟩ | ⟨h, rfl⟩ | ⟨h, rfl⟩ | ⟨h, rfl⟩ | ⟨h, rfl⟩ |
    ⟨h, rfl⟩ | ⟨h, rfl⟩ | ⟨h, rfl⟩ | ⟨h, rfl⟩ | ⟨h, rfl⟩ | ⟨h, rfl⟩ | ⟨h, rfl⟩ | ⟨h, rfl⟩ |
    ⟨h, rfl⟩ | ⟨h, rfl⟩ | ⟨h, rfl⟩ | ⟨h, rfl⟩ | ⟨h, rfl⟩ | ⟨h, rfl⟩ | ⟨h, rfl⟩ | ⟨h, rfl⟩ |
    ⟨h, rfl⟩ | ⟨h, rfl⟩ | ⟨h, rfl⟩ <;>
    constructor <;>
    simp [rfwbOp, rfAddrw, aluOp, branchOp, lsuOp, rfRda_eq, rfRdb_eq, selImm, simm, macOp, h,
      isLsu, LsuOp.we, Arith.aluOp, aluopMul]

end Opcode

/-! ### Operations -/

/-- The fields of an operation that comes from a word of format `fmt`. -/
structure Stems (w : Insn) (fmt : Format) (op : Operation) : Prop where
  rfwb : fmt.rfwb = op.rfwb
  dest : ∀ d, op.dest = some d → fmt.addrw w = d
  alu : fmt.aluOp w = op.aluOp
  branch : fmt.branchOp = op.branchOp
  lsu : fmt.lsuOp = op.lsuOp
  stores : fmt.stores = op.stores
  srcA : ∀ r, op.srcA = some r → fmt.readsA = true ∧ rA w = r
  regB : ∀ r, op.srcB = some (.reg r) → fmt.readsB = true ∧ rB w = r
  immB : ∀ k, op.srcB = some (.imm k) → fmt.readsB = false ∧ fmt.imm w = some k
  movhi : fmt = .movhi → w.getLsbD 16 = false
  disp : ∀ ofs, op.disp = some ofs → w.extractLsb' 0 26 = ofs
  ofs : ∀ k, op.ofs = some k → fmt.imm w = some (k.signExtend 32)
  shift : ∀ f, op.fn = some f → f.aluOp = 8 →
    Arith.ofShift (w.extractLsb' 6 2) = f ∨ fmt = .signed f ∨ fmt = .unsigned f
  cond : ∀ c, op.cond = some c → Cond.codes.lookup (w.extractLsb' 21 5) = some c

section Operation

variable {w : Insn} {op : Operation}

theorem Isa.Arith.aluOp_ofShift (c : BitVec 2) : (Arith.ofShift c).aluOp = 8 := by
  revert c
  decide

theorem Isa.Arith.aluOp_of_codes {c : BitVec 2 × BitVec 4} {f : Arith} (h : (c, f) ∈ Arith.codes) :
    c.2 = f.aluOp ∧ f.aluOp ≠ 8 := by
  simp only [Arith.codes, List.mem_cons, Prod.mk.injEq, List.not_mem_nil, or_false] at h
  rcases h with ⟨rfl, rfl⟩ | ⟨rfl, rfl⟩ | ⟨rfl, rfl⟩ | ⟨rfl, rfl⟩ | ⟨rfl, rfl⟩ | ⟨rfl, rfl⟩ |
    ⟨rfl, rfl⟩ | ⟨rfl, rfl⟩ | ⟨rfl, rfl⟩ <;> exact ⟨rfl, by decide⟩

/-- Only a compare has the `alu_op` of one. -/
theorem Isa.Operation.aluOp_of_cond (op : Operation) (h : op.cond = none) : op.aluOp ≠ 13 := by
  cases op with
  | set c => cases h
  | arith f =>
    change f.aluOp ≠ 13
    cases f <;> decide
  | _ => simp [aluopNop, aluopMovhi]

theorem stems_alu (h : decodeAlu w = some op) : Stems w .alu op := by
  -- every operation on two registers has these fields
  have harith (f : Arith) (hf : w.extractLsb' 0 4 = f.aluOp)
      (h8 : f.aluOp = 8 → Arith.ofShift (w.extractLsb' 6 2) = f) :
      Stems w .alu (.arith f (w.extractLsb' 21 5) (rA w) (.reg (rB w))) := by
    constructor <;> simp_all [Operation.dest]
  rw [decodeAlu] at h
  split_ifs at h with h8 he hf
  · obtain rfl := Option.some.inj h
    rw [Prod.mk.injEq] at h8
    exact harith _ (h8.2.trans (Arith.aluOp_ofShift _).symm) fun _ => rfl
  · obtain rfl := Option.some.inj h
    rw [Prod.mk.injEq] at he
    constructor <;> simp [Operation.dest, he.2]
  · obtain rfl := Option.some.inj h
    rw [Prod.mk.injEq] at hf
    constructor <;> simp [Operation.dest, hf.2]
  · obtain ⟨f, hcode, rfl⟩ := Option.map_eq_some_iff.1 h
    have hmem := mem_of_lookup hcode
    exact harith f (Arith.aluOp_of_codes hmem).1 fun h8 =>
      absurd h8 (Arith.aluOp_of_codes hmem).2

theorem stems {fmt : Format} (h : fmt.operation w = some op) : Stems w fmt op := by
  cases fmt
  case alu => exact stems_alu h
  case nop =>
    rw [Format.operation] at h
    split_ifs at h with hk
    obtain rfl := Option.some.inj h
    constructor <;> simp [Operation.dest]
  case movhi =>
    rw [Format.operation] at h
    split_ifs at h with hk
    obtain rfl := Option.some.inj h
    have hbit : w.getLsbD 16 = false := by
      have h0 : (w.extractLsb' 16 5).getLsbD 0 = false := by rw [hk]; rfl
      simpa using h0
    refine ⟨rfl, ?_, rfl, rfl, rfl, rfl, ?_, ?_, ?_, fun _ => hbit, ?_, ?_, ?_, ?_⟩ <;>
      simp [Operation.dest]
  case setImm | setReg =>
    obtain ⟨c, hc, rfl⟩ := Option.map_eq_some_iff.1 h
    constructor <;> simp [Operation.dest, hc]
  case jump link | jumpReg link =>
    obtain rfl := Option.some.inj h
    cases link <;> constructor <;> simp [Operation.dest]
  all_goals
    obtain rfl := Option.some.inj h
    constructor <;> simp [Operation.dest, Arith.aluOp_ofShift]

/-- The control unit decodes as the instruction set does. -/
theorem controls (h : decode w = some op) : Controls w op := by
  obtain ⟨fmt, hfmt, hop⟩ := Option.bind_eq_some_iff.1 h
  have hs := signals_of_codes (mem_of_lookup hfmt)
  have ht := stems hop
  refine ⟨hs.rfwb.trans ht.rfwb, fun d hd => hs.addrw.trans (ht.dest d hd), hs.alu.trans ht.alu,
    hs.branch.trans ht.branch, hs.lsu.trans ht.lsu, fun b hb => hs.stores b (ht.stores.trans hb),
    ?_, ?_, ?_, ht.disp,
    fun k hk => (hs.imm _ (ht.ofs k hk)).1, ?_, ht.cond, hs.spr, hs.mac, ?_⟩
  · intro r hr
    obtain ⟨hrd, hra⟩ := ht.srcA r hr
    exact ⟨hs.readsA.trans hrd, hra⟩
  · intro r hr
    obtain ⟨hrd, hrb⟩ := ht.regB r hr
    exact ⟨(hs.readsB hrd).1, (hs.readsB hrd).2, hrb⟩
  · intro k hk
    obtain ⟨hrd, himm⟩ := ht.immB k hk
    exact ⟨(hs.imm k himm).2 hrd, (hs.imm k himm).1⟩
  · intro f hf h8
    exact (ht.shift f hf h8).resolve_right fun h => hs.plain f h h8
  · rw [isMacrc]
    by_cases hm : opcode w = 0b000110
    · rw [ht.movhi (hs.movhi hm), Bool.and_false]
    · rw [decide_eq_false hm, Bool.false_and]

end Operation

end DsdOrsoc.Or1200
