import DsdOrsoc.Or1200.DataMemory
import DsdOrsoc.Or1200.Division
import DsdOrsoc.Or1200.Stream

/-! The instruction set as a program sees it: one instruction after another, each with its whole
    effect. There are no stages, no stalls and no buses here; what remains of the pipeline is the
    delay slot, in the two program counters.

        word ──decode──▶ operation ──▶ a result for one register
                                       flag and carry
                                       the bytes in memory
                                       the target of a jump or taken branch

    Left out are the special-purpose registers, the accumulator and whatever raises an exception. -/

namespace DsdOrsoc.Or1200.Isa
open Schemes Lanes

/-! ### Operations -/

/-- The second operand: a register or an immediate value. -/
inductive Src where | reg (r : Gpr) | imm (k : BitVec 32)

inductive Arith where | add | addc | sub | and | or | xor | mul | div | divu | sll | srl | sra | ror
  deriving DecidableEq

inductive Cond where | eq | ne | gtu | geu | ltu | leu | gts | ges | lts | les
  deriving DecidableEq

inductive Operation where
  | jump (ofs : BitVec 26) (link : Bool)
  | jumpReg (b : Gpr) (link : Bool)
  | branch (ofs : BitVec 26) (on : Bool)
  | nop
  | movhi (d : Gpr) (k : BitVec 16)
  | arith (f : Arith) (d a : Gpr) (b : Src)
  | cmov (d a b : Gpr)
  | ff1 (d a : Gpr)
  | set (c : Cond) (a : Gpr) (b : Src)
  | load (op : LsuOp) (d a : Gpr) (k : BitVec 16)
  | store (op : LsuOp) (a b : Gpr) (k : BitVec 16)

/-- The conditions of l.sfxx. -/
def Cond.codes : List (BitVec 5 × Cond) :=
  [(0x0, .eq), (0x1, .ne), (0x2, .gtu), (0x3, .geu), (0x4, .ltu), (0x5, .leu),
    (0xa, .gts), (0xb, .ges), (0xc, .lts), (0xd, .les)]

/-- The operations on two registers, by bits 9:8 and 3:0. -/
def Arith.codes : List ((BitVec 2 × BitVec 4) × Arith) :=
  [((0, 0x0), .add), ((0, 0x1), .addc), ((0, 0x2), .sub), ((0, 0x3), .and), ((0, 0x4), .or),
    ((0, 0x5), .xor), ((3, 0x6), .mul), ((3, 0x9), .div), ((3, 0xa), .divu)]

/-- The shift, from bits 7:6. -/
def Arith.ofShift (c : BitVec 2) : Arith :=
  if c = 0 then .sll else if c = 1 then .srl else if c = 2 then .sra else .ror

/-- An instruction on two registers. -/
def decodeAlu (w : Insn) : Option Operation :=
  let d := w.extractLsb' 21 5
  let c := (w.extractLsb' 8 2, w.extractLsb' 0 4)
  if c = (0, 0x8) then
    some (.arith (.ofShift (w.extractLsb' 6 2)) d (rA w) (.reg (rB w)))
  else if c = (0, 0xe) then some (.cmov d (rA w) (rB w))
  else if c = (0, 0xf) then some (.ff1 d (rA w))
  else (Arith.codes.lookup c).map fun f => .arith f d (rA w) (.reg (rB w))

/-- The kinds of instructions, as the opcode tells them apart. -/
inductive Format where
  | jump (link : Bool)
  | jumpReg (link : Bool)
  | branch (on : Bool)
  | nop
  | movhi
  | load (op : LsuOp)
  | store (op : LsuOp)
  | signed (f : Arith)
  | unsigned (f : Arith)
  | shift
  | setImm
  | alu
  | setReg

def Format.codes : List (BitVec 6 × Format) :=
  [(0x00, .jump false), (0x01, .jump true), (0x03, .branch false), (0x04, .branch true),
    (0x05, .nop), (0x06, .movhi), (0x11, .jumpReg false), (0x12, .jumpReg true),
    (0x21, .load .lwz), (0x23, .load .lbz), (0x24, .load .lbs), (0x25, .load .lhz),
    (0x26, .load .lhs), (0x27, .signed .add), (0x28, .signed .addc), (0x29, .unsigned .and),
    (0x2a, .unsigned .or), (0x2b, .signed .xor), (0x2c, .signed .mul), (0x2e, .shift),
    (0x2f, .setImm), (0x35, .store .sw), (0x36, .store .sb), (0x37, .store .sh), (0x38, .alu),
    (0x39, .setReg)]

/-- The operation of a word of this kind. -/
def Format.operation (w : Insn) (fmt : Format) : Option Operation :=
  let d := w.extractLsb' 21 5
  let k : BitVec 16 := w.extractLsb' 0 16
  match fmt with
  | .jump link => some (.jump (w.extractLsb' 0 26) link)
  | .jumpReg link => some (.jumpReg (rB w) link)
  | .branch on => some (.branch (w.extractLsb' 0 26) on)
  | .nop => if w.extractLsb' 16 10 = 0x100 then some .nop else none
  | .movhi => if w.extractLsb' 16 5 = 0 then some (.movhi d k) else none
  | .load op => some (.load op d (rA w) k)
  | .store op => some (.store op (rA w) (rB w) (w.extractLsb' 21 5 ++ w.extractLsb' 0 11))
  | .signed f => some (.arith f d (rA w) (.imm (k.signExtend 32)))
  | .unsigned f => some (.arith f d (rA w) (.imm (k.setWidth 32)))
  -- the amount is in the low five bits, which is all that a shift looks at
  | .shift => some (.arith (.ofShift (w.extractLsb' 6 2)) d (rA w) (.imm (k.setWidth 32)))
  | .setImm => (Cond.codes.lookup d).map fun c => .set c (rA w) (.imm (k.signExtend 32))
  | .alu => decodeAlu w
  | .setReg => (Cond.codes.lookup d).map fun c => .set c (rA w) (.reg (rB w))

/-- The operation of an instruction word, if it is one of these. -/
def decode (w : Insn) : Option Operation :=
  (Format.codes.lookup (opcode w)).bind fun fmt => fmt.operation w

theorem mem_of_lookup {α β : Type} [BEq α] [LawfulBEq α] {l : List (α × β)} {x : α} {y : β}
    (h : l.lookup x = some y) : (x, y) ∈ l := by
  obtain ⟨l₁, l₂, rfl, -⟩ := List.lookup_eq_some_iff.1 h
  simp

/-! ### Values -/

/-- The number of the lowest bit that is set, counted from one; zero if there is none. -/
def firstOne (a : BitVec 32) : BitVec 32 :=
  match (List.range 32).find? a.getLsbD with
  | some n => BitVec.ofNat 32 (n + 1)
  | none => 0

def Arith.value (f : Arith) (cy : Bool) (a b : BitVec 32) : BitVec 32 :=
  match f with
  | .add => a + b
  | .addc => a + b + BitVec.ofNat 32 cy.toNat
  | .sub => a - b
  | .and => a &&& b
  | .or => a ||| b
  | .xor => a ^^^ b
  | .mul => a * b
  | .div => BitVec.ofInt 32 (a.toInt.tdiv b.toInt)
  | .divu => a / b
  | .sll => a <<< (b.toNat % 32)
  | .srl => a >>> (b.toNat % 32)
  | .sra => a.sshiftRight (b.toNat % 32)
  | .ror => a.rotateRight (b.toNat % 32)

/-- Additions and subtractions leave a carry or borrow, the others leave the carry as it is. -/
def Arith.carry (f : Arith) (cy : Bool) (a b : BitVec 32) : Bool :=
  match f with
  | .add => decide (2 ^ 32 ≤ a.toNat + b.toNat)
  | .addc => decide (2 ^ 32 ≤ a.toNat + b.toNat + cy.toNat)
  | .sub => decide (a.toNat < b.toNat)
  | _ => cy

def Cond.holds (c : Cond) (a b : BitVec 32) : Bool :=
  match c with
  | .eq => decide (a = b)
  | .ne => decide (a ≠ b)
  | .gtu => decide (b.toNat < a.toNat)
  | .geu => decide (b.toNat ≤ a.toNat)
  | .ltu => decide (a.toNat < b.toNat)
  | .leu => decide (a.toNat ≤ b.toNat)
  | .gts => decide (b.toInt < a.toInt)
  | .ges => decide (b.toInt ≤ a.toInt)
  | .lts => decide (a.toInt < b.toInt)
  | .les => decide (a.toInt ≤ b.toInt)

/-! ### Execution -/

/-- What a program sees. -/
@[ext] structure State where
  arch : Arch
  gpr : Gpr → BitVec 32
  flag : Bool
  cy : Bool
  mem : BitVec 32 → BitVec 8

/-- Out of reset, over the bytes `m`. -/
def boot (m : BitVec 32 → BitVec 8) : State := ⟨.boot, fun _ => 0, false, false, m⟩

variable (s : State)

def Src.value : Src → BitVec 32
  | .reg r => s.gpr r
  | .imm k => k

namespace Operation

variable (op : Operation)

/-- The access of a load or store. -/
def access? : Option MemAccess :=
  match op with
  | .load op _ a k => some ⟨op, s.gpr a, k.signExtend 32, 0⟩
  | .store op a b k => some ⟨op, s.gpr a, k.signExtend 32, s.gpr b⟩
  | _ => none

/-- The address of the instruction after the delay slot. -/
def link : BitVec 32 := (s.arch.pc + 2) ++ 0#2

/-- The register that is written, with its value. -/
def result : Option (Gpr × BitVec 32) :=
  match op with
  | .jump _ true => some (9, link s)
  | .jumpReg _ true => some (9, link s)
  | .movhi d k => some (d, k ++ 0#16)
  | .arith f d a b => some (d, f.value s.cy (s.gpr a) (b.value s))
  | .cmov d a b => some (d, if s.flag then s.gpr a else s.gpr b)
  | .ff1 d a => some (d, firstOne (s.gpr a))
  | .load op d a k => some (d, MemAccess.value ⟨op, s.gpr a, k.signExtend 32, 0⟩ s.mem)
  | _ => none

def flag : Bool :=
  match op with
  | .set c a b => c.holds (s.gpr a) (b.value s)
  | _ => s.flag

def carry : Bool :=
  match op with
  | .arith f _ a b => f.carry s.cy (s.gpr a) (b.value s)
  | _ => s.cy

/-- Where a jump or taken branch goes. -/
def target? : Option Word :=
  match op with
  | .jump ofs _ => some (ofs.signExtend 30 + s.arch.pc)
  | .jumpReg b _ => some ((s.gpr b).extractLsb' 2 30)
  | .branch ofs on => if s.flag = on then some (ofs.signExtend 30 + s.arch.pc) else none
  | _ => none

/-- The registers after a write; r0 stays zero. -/
def setGpr (g : Gpr → BitVec 32) (d : Gpr) (v : BitVec 32) : Gpr → BitVec 32 :=
  if d = 0 then g else Function.update g d v

/-- The whole effect. -/
def exec : State where
  arch := ⟨s.arch.npc, (op.target? s).getD (s.arch.npc + 1)⟩
  gpr := (op.result s).elim s.gpr fun w => setGpr s.gpr w.1 w.2
  flag := op.flag s
  cy := op.carry s
  mem := (op.access? s).elim s.mem fun x => x.exec s.mem

/-- The register that an operation writes. -/
def dest : Option Gpr :=
  match op with
  | .jump _ true => some 9
  | .jumpReg _ true => some 9
  | .movhi d _ => some d
  | .arith _ d _ _ => some d
  | .cmov d _ _ => some d
  | .ff1 d _ => some d
  | .load _ d _ _ => some d
  | _ => none

/-- The operands for which the operation has a result: addresses are aligned, and nothing is divided
    by zero, nor without sign by more than the divider can compare. -/
def Defined : Prop :=
  (∀ x, op.access? s = some x → x.Aligned) ∧
    match op with
    | .arith .div _ _ b => b.value s ≠ 0
    | .arith .divu _ a b => b.value s ≠ 0 ∧ Fits (s.gpr a) (b.value s)
    | _ => True

end Operation

variable (imem : Word → Insn)

/-- One instruction. -/
def step : State := (decode (imem s.arch.pc)).elim s fun op => op.exec s

variable {s imem} in
theorem step_of_decode {op : Operation} (hop : decode (imem s.arch.pc) = some op) :
    step s imem = op.exec s := by
  rw [step, hop]
  rfl

/-- The state after `n` instructions from reset. -/
def run (m : BitVec 32 → BitVec 8) (n : ℕ) : State := (fun s => step s imem)^[n] (boot m)

/-- The instruction that comes next has a result. -/
def Defined : Prop := ∀ op, decode (imem s.arch.pc) = some op → op.Defined s

/-- The instruction that comes next is one of the set, does not write r0 and has a result; and if it
    is a jump or branch, there is none in its delay slot. -/
structure Valid : Prop where
  insn : ∃ op, decode (imem s.arch.pc) = some op ∧ op.dest ≠ some 0 ∧ op.Defined s
  slot : branchOp (imem s.arch.pc) ≠ .nop → branchOp (imem s.arch.npc) = .nop

/-- A memory of nothing else: every word is an instruction of the set that does not write r0, and no
    branch stands in the delay slot of another one. -/
structure Program (imem : Word → Insn) : Prop where
  decodes : ∀ a, ∃ op, decode (imem a) = some op ∧ op.dest ≠ some 0
  slots : ∀ a, branchOp (imem a) ≠ .nop → branchOp (imem (a + 1)) = .nop

end DsdOrsoc.Or1200.Isa
