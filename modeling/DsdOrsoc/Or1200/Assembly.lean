import DsdOrsoc.Or1200.Control

/-! Programs in assembler: the words of the mnemonics, and rules for code that lies in memory. A
    contract has the form "from a state at the start of the code one is REACHED at its end"; it is
    put together from the rule for a straight block, one step for a jump and its delay slot, and
    transitivity. Every instruction on the way is valid, so that what is shown of a program also
    holds on the core. -/

namespace DsdOrsoc.Or1200.Isa
open Schemes Lanes

/-! ### Words -/

/-- The layout of most instructions: opcode, rD, rA and the low half. -/
def wordOf (o : BitVec 6) (d a : Gpr) (k : BitVec 16) : Insn := o ++ d ++ a ++ k

theorem wordOf_fields (o : BitVec 6) (d a : Gpr) (k : BitVec 16) :
    opcode (wordOf o d a k) = o ∧ (wordOf o d a k).extractLsb' 21 5 = d ∧
      rA (wordOf o d a k) = a ∧ (wordOf o d a k).extractLsb' 0 16 = k := by
  refine ⟨?_, ?_, ?_, ?_⟩ <;> apply BitVec.eq_of_getLsbD_eq <;> intro n hn <;>
    simp only [opcode, rA, wordOf, BitVec.getLsbD_extractLsb', BitVec.getLsbD_append] <;> grind

/-- The low half of an instruction with a second register. -/
theorem wordOf_low (o : BitVec 6) (d a b : Gpr) (f : BitVec 11) :
    rB (wordOf o d a (b ++ f)) = b ∧ (wordOf o d a (b ++ f)).extractLsb' 0 11 = f ∧
      (wordOf o d a (b ++ f)).extractLsb' 8 2 = f.extractLsb' 8 2 ∧
      (wordOf o d a (b ++ f)).extractLsb' 0 4 = f.extractLsb' 0 4 := by
  refine ⟨?_, ?_, ?_, ?_⟩ <;> apply BitVec.eq_of_getLsbD_eq <;> intro n hn <;>
    simp only [rB, wordOf, BitVec.getLsbD_extractLsb', BitVec.getLsbD_append] <;> grind

section Mnemonics

/-! The operands stand in the order of the assembler. -/

def lNop : Insn := 0x15000000
def lMovhi (d : Gpr) (k : BitVec 16) : Insn := wordOf 0x06 d 0 k
def lJr (b : Gpr) : Insn := wordOf 0x11 0 0 (b ++ 0#11)
def lBf (n : BitVec 26) : Insn := 0x04#6 ++ n
def lLwz (d : Gpr) (k : BitVec 16) (a : Gpr) : Insn := wordOf 0x21 d a k
def lAddi (d a : Gpr) (k : BitVec 16) : Insn := wordOf 0x27 d a k
def lOri (d a : Gpr) (k : BitVec 16) : Insn := wordOf 0x2a d a k
def lSfeqi (a : Gpr) (k : BitVec 16) : Insn := wordOf 0x2f 0x00 a k
def lSfgtsi (a : Gpr) (k : BitVec 16) : Insn := wordOf 0x2f 0x0a a k
def lSub (d a b : Gpr) : Insn := wordOf 0x38 d a (b ++ 2#11)

def lSw (k : BitVec 16) (a b : Gpr) : Insn :=
  wordOf 0x35 (k.extractLsb' 11 5) a (b ++ k.extractLsb' 0 11)

variable {d a b : Gpr} {k : BitVec 16}

theorem decode_wordOf {o : BitVec 6} {fmt : Format} (h : Format.codes.lookup o = some fmt) :
    decode (wordOf o d a k) = fmt.operation (wordOf o d a k) := by
  rw [decode, (wordOf_fields o d a k).1, h]
  rfl

theorem decode_lNop : decode lNop = some .nop := rfl

theorem decode_lMovhi : decode (lMovhi d k) = some (.movhi d k) := by
  obtain ⟨-, hd, ha, hk⟩ := wordOf_fields 0x06 d 0 k
  rw [lMovhi, decode_wordOf (by rfl)]
  simp only [Format.operation, hd, hk, show (wordOf 0x06 d 0 k).extractLsb' 16 5 = 0 from ha]
  rfl

theorem decode_lJr : decode (lJr b) = some (.jumpReg b false) := by
  rw [lJr, decode_wordOf (by rfl)]
  simp only [Format.operation, (wordOf_low 0x11 0 0 b 0#11).1]

theorem decode_lBf (n : BitVec 26) : decode (lBf n) = some (.branch n true) := by
  have ho : opcode (lBf n) = 0x04 := BitVec.extractLsb'_append_eq_left
  have hn : (lBf n).extractLsb' 0 26 = n := BitVec.extractLsb'_append_eq_right
  rw [decode, ho, show Format.codes.lookup (0x04 : BitVec 6) = some (.branch true) from rfl]
  simp only [Option.bind_some, Format.operation, hn]

theorem decode_lLwz : decode (lLwz d k a) = some (.load .lwz d a k) := by
  obtain ⟨-, hd, ha, hk⟩ := wordOf_fields 0x21 d a k
  rw [lLwz, decode_wordOf (by rfl)]
  simp only [Format.operation, hd, ha, hk]

theorem decode_lAddi : decode (lAddi d a k) = some (.arith .add d a (.imm (k.signExtend 32))) := by
  obtain ⟨-, hd, ha, hk⟩ := wordOf_fields 0x27 d a k
  rw [lAddi, decode_wordOf (by rfl)]
  simp only [Format.operation, hd, ha, hk]

theorem decode_lOri : decode (lOri d a k) = some (.arith .or d a (.imm (k.setWidth 32))) := by
  obtain ⟨-, hd, ha, hk⟩ := wordOf_fields 0x2a d a k
  rw [lOri, decode_wordOf (by rfl)]
  simp only [Format.operation, hd, ha, hk]

theorem decode_lSfeqi : decode (lSfeqi a k) = some (.set .eq a (.imm (k.signExtend 32))) := by
  obtain ⟨-, hd, ha, hk⟩ := wordOf_fields 0x2f 0x00 a k
  rw [lSfeqi, decode_wordOf (by rfl)]
  simp only [Format.operation, hd, ha, hk]
  rfl

theorem decode_lSfgtsi : decode (lSfgtsi a k) = some (.set .gts a (.imm (k.signExtend 32))) := by
  obtain ⟨-, hd, ha, hk⟩ := wordOf_fields 0x2f 0x0a a k
  rw [lSfgtsi, decode_wordOf (by rfl)]
  simp only [Format.operation, hd, ha, hk]
  rfl

theorem decode_lSw : decode (lSw k a b) = some (.store .sw a b k) := by
  obtain ⟨-, hd, ha, -⟩ :=
    wordOf_fields 0x35 (k.extractLsb' 11 5) a (b ++ k.extractLsb' 0 11)
  obtain ⟨hb, hk, -, -⟩ := wordOf_low 0x35 (k.extractLsb' 11 5) a b (k.extractLsb' 0 11)
  rw [lSw, decode_wordOf (by rfl)]
  simp only [Format.operation, hd, ha, hb, hk]
  rw [BitVec.extractLsb'_append_extractLsb']

theorem decode_lSub : decode (lSub d a b) = some (.arith .sub d a (.reg b)) := by
  obtain ⟨-, hd, ha, -⟩ := wordOf_fields 0x38 d a (b ++ 2#11)
  obtain ⟨hb, -, h8, h0⟩ := wordOf_low 0x38 d a b 2#11
  rw [lSub, decode_wordOf (by rfl)]
  simp only [Format.operation, decodeAlu, hd, ha, hb, h8, h0]
  rfl

end Mnemonics

/-- `hi(x)` and `lo(x)` of the assembler. -/
def hi (x : BitVec 32) : BitVec 16 := x.extractLsb' 16 16

def lo (x : BitVec 32) : BitVec 16 := x.extractLsb' 0 16

/-- `l.movhi` and `l.ori` put together what `hi` and `lo` have taken apart. -/
theorem hi_or_lo (x : BitVec 32) : (hi x ++ 0#16) ||| (lo x).setWidth 32 = x := by
  apply BitVec.eq_of_getLsbD_eq
  intro n hn
  simp only [hi, lo, BitVec.getLsbD_or, BitVec.getLsbD_append, BitVec.getLsbD_setWidth,
    BitVec.getLsbD_extractLsb']
  grind

/-! ### Code in memory -/

/-- The words that lie at an address. -/
def Holds (imem : Word → Insn) : Word → List Insn → Prop
  | _, [] => True
  | a, w :: ws => imem a = w ∧ Holds imem (a + 1) ws

instance Holds.decidable (imem : Word → Insn) : ∀ a ws, Decidable (Holds imem a ws)
  | _, [] => isTrue trivial
  | a, _ :: ws => @instDecidableAnd _ _ _ (Holds.decidable imem (a + 1) ws)

/-- The operations that lie at an address. -/
def Code (imem : Word → Insn) : Word → List Operation → Prop
  | _, [] => True
  | a, op :: ops => decode (imem a) = some op ∧ Code imem (a + 1) ops

variable {imem : Word → Insn}

theorem Code.of_holds {a : Word} {ws : List Insn} {ops : List Operation} (h : Holds imem a ws)
    (hd : ws.map decode = ops.map some) : Code imem a ops := by
  induction ws generalizing a ops with
  | nil =>
    cases ops with
    | nil => trivial
    | cons op ops => cases hd
  | cons w ws ih =>
    cases ops with
    | nil => cases hd
    | cons op ops =>
      rw [List.map_cons, List.map_cons, List.cons.injEq] at hd
      exact ⟨h.1 ▸ hd.1, ih h.2 hd.2⟩

theorem holds_append {a : Word} {xs ys : List Insn} : Holds imem a (xs ++ ys) ↔
    Holds imem a xs ∧ Holds imem (a + BitVec.ofNat 30 xs.length) ys := by
  induction xs generalizing a with
  | nil => simp [Holds]
  | cons x xs ih =>
    have hadr : a + 1 + BitVec.ofNat 30 xs.length = a + BitVec.ofNat 30 (x :: xs).length := by
      rw [List.length_cons, BitVec.ofNat_add]
      ac_rfl
    rw [List.cons_append, Holds, ih, Holds, hadr, and_assoc]

/-! ### Execution -/

/-- Valid instructions lead from the first state to the second. -/
inductive Reaches (imem : Word → Insn) : State → State → Prop
  | refl (s : State) : Reaches imem s s
  | cons {s s' : State} {op : Operation} (hop : decode (imem s.arch.pc) = some op)
      (hv : Valid s imem) (h : Reaches imem (op.exec s) s') : Reaches imem s s'

theorem Reaches.trans {s s' s'' : State} (h : Reaches imem s s') (h' : Reaches imem s' s'') :
    Reaches imem s s'' := by
  induction h with
  | refl => exact h'
  | cons hop hv _ ih => exact .cons hop hv (ih h')

theorem Reaches.one {s : State} {op : Operation} (hop : decode (imem s.arch.pc) = some op)
    (hv : Valid s imem) : Reaches imem s (op.exec s) := .cons hop hv (.refl _)

/-- What is reached is reached by the function of a number of instructions. -/
theorem Reaches.iterate {s s' : State} (h : Reaches imem s s') :
    ∃ n, (fun s => step s imem)^[n] s = s' ∧
      ∀ k < n, Valid ((fun s => step s imem)^[k] s) imem := by
  induction h with
  | refl s => exact ⟨0, rfl, fun k hk => absurd hk (Nat.not_lt_zero k)⟩
  | @cons s s' op hop hv _ ih =>
    obtain ⟨n, hn, hall⟩ := ih
    refine ⟨n + 1, ?_, fun k hk => ?_⟩
    · rw [Function.iterate_succ_apply, step_of_decode hop, hn]
    · cases k with
      | zero => exact hv
      | succ k =>
        rw [Function.iterate_succ_apply, step_of_decode hop]
        exact hall k (by omega)

/-- The word at an address. -/
def wordAt (m : BitVec 32 → BitVec 8) (x : BitVec 32) : BitVec 32 :=
  m x ++ m (x + 1) ++ m (x + 2) ++ m (x + 3)

/-- A word that is stored again has been moved byte by byte. -/
theorem store_wordAt (m m' : BitVec 32 → BitVec 8) (x a b : BitVec 32) :
    store 4 a (wordAt m x) m' b = if (b - a).toNat < 4 then m (x + (b - a)) else m' b := by
  rw [store]
  split
  · next h =>
    obtain ⟨l0, l1, l2, l3⟩ := lane_append (m x) (m (x + 1)) (m (x + 2)) (m (x + 3))
    generalize b - a = y at h
    obtain ⟨j, rfl, hj⟩ : ∃ j, y = BitVec.ofNat 32 j ∧ j < 4 := ⟨y.toNat, by simp, h⟩
    interval_cases j
    · rw [BitVec.add_zero]
      exact l0
    · exact l1
    · exact l2
    · exact l3
  · rfl

/-! The effect on the parts of the state, for the operations that occur in programs below. -/

section Effects

variable (s : State) (d a b : Gpr) (k : BitVec 16) (f : Arith) (c : Cond) (x : Src) (on : Bool)

@[simp] theorem setGpr_apply (g : Gpr → BitVec 32) (v : BitVec 32) (r : Gpr) :
    Operation.setGpr g d v r = if r = d ∧ d ≠ 0#5 then v else g r := by
  rw [Operation.setGpr]
  split
  · next hd => exact (if_neg fun h => h.2 hd).symm
  · next hd =>
    by_cases hr : r = d
    · rw [if_pos ⟨hr, hd⟩, hr, Function.update_self]
    · rw [if_neg fun h => hr h.1, Function.update_of_ne hr]

@[simp] theorem exec_nop : (Operation.nop.exec s).gpr = s.gpr ∧ (Operation.nop.exec s).mem = s.mem ∧
    (Operation.nop.exec s).flag = s.flag := ⟨rfl, rfl, rfl⟩

@[simp] theorem exec_movhi :
    ((Operation.movhi d k).exec s).gpr = Operation.setGpr s.gpr d (k ++ 0#16) ∧
    ((Operation.movhi d k).exec s).mem = s.mem ∧
    ((Operation.movhi d k).exec s).flag = s.flag := ⟨rfl, rfl, rfl⟩

@[simp] theorem exec_arith : ((Operation.arith f d a x).exec s).gpr =
      Operation.setGpr s.gpr d (f.value s.cy (s.gpr a) (x.value s)) ∧
    ((Operation.arith f d a x).exec s).mem = s.mem ∧
    ((Operation.arith f d a x).exec s).flag = s.flag := ⟨rfl, rfl, rfl⟩

@[simp] theorem exec_set : ((Operation.set c a x).exec s).gpr = s.gpr ∧
    ((Operation.set c a x).exec s).mem = s.mem ∧
    ((Operation.set c a x).exec s).flag = c.holds (s.gpr a) (x.value s) := ⟨rfl, rfl, rfl⟩

@[simp] theorem exec_lwz : ((Operation.load .lwz d a k).exec s).gpr =
      Operation.setGpr s.gpr d (wordAt s.mem (s.gpr a + k.signExtend 32)) ∧
    ((Operation.load .lwz d a k).exec s).mem = s.mem ∧
    ((Operation.load .lwz d a k).exec s).flag = s.flag := ⟨rfl, rfl, rfl⟩

@[simp] theorem exec_sw : ((Operation.store .sw a b k).exec s).gpr = s.gpr ∧
    ((Operation.store .sw a b k).exec s).mem =
      store 4 (s.gpr a + k.signExtend 32) (s.gpr b) s.mem ∧
    ((Operation.store .sw a b k).exec s).flag = s.flag := ⟨rfl, rfl, rfl⟩

@[simp] theorem exec_jumpReg : ((Operation.jumpReg b false).exec s).gpr = s.gpr ∧
    ((Operation.jumpReg b false).exec s).mem = s.mem := ⟨rfl, rfl⟩

@[simp] theorem exec_branch (n : BitVec 26) : ((Operation.branch n on).exec s).gpr = s.gpr ∧
    ((Operation.branch n on).exec s).mem = s.mem := ⟨rfl, rfl⟩

@[simp] theorem defined_nop : Operation.nop.Defined s := by
  simp [Operation.Defined, Operation.access?]

@[simp] theorem defined_movhi : (Operation.movhi d k).Defined s := by
  simp [Operation.Defined, Operation.access?]

@[simp] theorem defined_arith (h : f ≠ .div) (h' : f ≠ .divu) :
    (Operation.arith f d a x).Defined s := by
  refine ⟨by simp [Operation.access?], ?_⟩
  cases f <;> trivial

@[simp] theorem defined_set : (Operation.set c a x).Defined s := by
  simp [Operation.Defined, Operation.access?]

@[simp] theorem defined_jumpReg : (Operation.jumpReg b on).Defined s := by
  simp [Operation.Defined, Operation.access?]

@[simp] theorem defined_branch (n : BitVec 26) : (Operation.branch n on).Defined s := by
  simp [Operation.Defined, Operation.access?]

@[simp] theorem defined_lwz :
    (Operation.load .lwz d a k).Defined s ↔ (s.gpr a + k.signExtend 32).toNat % 4 = 0 := by
  simp [Operation.Defined, Operation.access?, MemAccess.Aligned, MemAccess.adr, LsuOp.size]

@[simp] theorem defined_sw :
    (Operation.store .sw a b k).Defined s ↔ (s.gpr a + k.signExtend 32).toNat % 4 = 0 := by
  simp [Operation.Defined, Operation.access?, MemAccess.Aligned, MemAccess.adr, LsuOp.size]

end Effects

/-- An operation that is no jump and no branch. -/
def Operation.Straight : Operation → Prop
  | .jump _ _ | .jumpReg _ _ | .branch _ _ => False
  | _ => True

/-- One operation after another. -/
def execs : List Operation → State → State
  | [], s => s
  | op :: ops, s => execs ops (op.exec s)

/-- The word of a straight operation is no branch. -/
theorem Operation.Straight.branchOp {op : Operation} (h : op.Straight) {w : Insn}
    (hw : decode w = some op) : Or1200.branchOp w = .nop := by
  rw [(controls hw).branch]
  cases op <;> first | rfl | exact h.elim

theorem Operation.Straight.target? {op : Operation} (h : op.Straight) (s : State) :
    op.target? s = none := by
  cases op <;> first | rfl | exact h.elim

/-- A straight operation that can stand in a program: it does not write r0, and it is defined. -/
@[mk_iff] structure Operation.Plain (op : Operation) (s : State) : Prop where
  straight : op.Straight
  dest : op.dest ≠ some 0
  defined : op.Defined s

theorem plain_nop (s : State) : Operation.nop.Plain s := ⟨trivial, by decide, by simp⟩

/-- All operations of a block are plain where they stand. -/
def PlainOn : List Operation → State → Prop
  | [], _ => True
  | op :: ops, s => op.Plain s ∧ PlainOn ops (op.exec s)

attribute [simp] Operation.Straight Operation.plain_iff PlainOn

/-- At the first instruction of a block. -/
def State.At (s : State) (a : Word) : Prop := s.arch = ⟨a, a + 1⟩

theorem Operation.Plain.valid {op : Operation} {s : State} (h : op.Plain s)
    (hop : decode (imem s.arch.pc) = some op) : Valid s imem :=
  ⟨⟨op, hop, h.dest, h.defined⟩, fun hb => absurd (h.straight.branchOp hop) hb⟩

/-- NEXT: a plain operation is followed by the next one. -/
theorem Reaches.next {a : Word} {op : Operation} {s : State} (hc : decode (imem a) = some op)
    (ha : s.At a) (hp : op.Plain s) :
    Reaches imem s (op.exec s) ∧ (op.exec s).At (a + 1) := by
  have hpc : s.arch.pc = a := congrArg Arch.pc ha
  have hop : decode (imem s.arch.pc) = some op := hpc ▸ hc
  refine ⟨.one hop (hp.valid hop), ?_⟩
  rw [State.At, Operation.exec, hp.straight.target?, ha]
  rfl

/-- BLOCK: straight code is executed from its start to its end. -/
theorem Reaches.block {a : Word} {ops : List Operation} {s : State} (hc : Code imem a ops)
    (ha : s.At a) (hd : PlainOn ops s) :
    Reaches imem s (execs ops s) ∧ (execs ops s).At (a + BitVec.ofNat 30 ops.length) := by
  induction ops generalizing a s with
  | nil => exact ⟨.refl s, by simpa [execs] using ha⟩
  | cons op ops ih =>
    obtain ⟨hr, hat⟩ := Reaches.next hc.1 ha hd.1
    obtain ⟨hr', hat'⟩ := ih hc.2 hat hd.2
    refine ⟨hr.trans hr', ?_⟩
    have hadr : a + 1 + BitVec.ofNat 30 ops.length = a + BitVec.ofNat 30 (op :: ops).length := by
      rw [List.length_cons, BitVec.ofNat_add]
      ac_rfl
    rw [← hadr]
    exact hat'

/-- The operations of a block are valid one after another. -/
theorem Code.valid {a : Word} {ops : List Operation} {s : State} (hc : Code imem a ops)
    (ha : s.At a) (hd : PlainOn ops s) :
    ∀ k < ops.length, Valid ((fun s => step s imem)^[k] s) imem := by
  induction ops generalizing a s with
  | nil => exact fun k hk => absurd hk (Nat.not_lt_zero k)
  | cons op ops ih =>
    have hpc : s.arch.pc = a := congrArg Arch.pc ha
    have hop : decode (imem s.arch.pc) = some op := hpc ▸ hc.1
    intro k hk
    cases k with
    | zero => exact hd.1.valid hop
    | succ k =>
      rw [Function.iterate_succ_apply, step_of_decode hop]
      exact ih hc.2 (Reaches.next hc.1 ha hd.1).2 hd.2 k (Nat.lt_of_succ_lt_succ hk)

/-- BRANCH: a jump or branch and its delay slot lead to the target, if there is one. -/
theorem Reaches.branch {a : Word} {op slot : Operation} {s : State}
    (hc : Code imem a [op, slot]) (ha : s.At a) (h0 : op.dest ≠ some 0) (hd : op.Defined s)
    (hs : slot.Plain (op.exec s)) :
    Reaches imem s (slot.exec (op.exec s)) ∧
      (slot.exec (op.exec s)).At ((op.target? s).getD (a + 2)) := by
  have hpc : s.arch.pc = a := congrArg Arch.pc ha
  have hnpc : s.arch.npc = a + 1 := congrArg Arch.npc ha
  have hop : decode (imem s.arch.pc) = some op := hpc ▸ hc.1
  have hslot : decode (imem s.arch.npc) = some slot := hnpc ▸ hc.2.1
  have harch : (op.exec s).arch = ⟨a + 1, (op.target? s).getD (a + 2)⟩ := by
    rw [Operation.exec, ha, show a + 2 = a + 1 + 1 by rw [BitVec.add_assoc]; rfl]
  have hv : Valid s imem := ⟨⟨op, hop, h0, hd⟩, fun _ => hs.straight.branchOp hslot⟩
  have hslot' : decode (imem (op.exec s).arch.pc) = some slot := by
    rw [harch]
    exact hc.2.1
  refine ⟨.cons hop hv (.one hslot' (hs.valid hslot')), ?_⟩
  rw [State.At, Operation.exec, hs.straight.target?, harch]
  rfl

end DsdOrsoc.Or1200.Isa
