import DsdOrsoc.Or1200.Assembly
import DsdOrsoc.Or1200.Executed

/-! `flash_boot.S`, the program in the flash that starts the SoC (without caches, as `board.h` has
    it): it copies the user program that is linked behind it from the flash to the RAM, clears the
    registers and jumps to the reset vector in the RAM. -/

namespace DsdOrsoc.Sw
open Schemes Lanes Or1200 Isa

/-! ### The program -/

/-- `GPIO_BASE`. -/
def gpioBase : BitVec 32 := 0xE0000000

/-- What the linker script leaves open: the addresses of `_start` and `_user_prog` in the flash, and
    the size of the user program, whose place in the RAM is `_user_start` = 0. -/
structure Image where
  start : BitVec 32
  userProg : BitVec 32
  words : ℕ
  start_aligned : start.toNat % 4 = 0
  prog_aligned : userProg.toNat % 4 = 0
  flash : 0xF0000000 ≤ userProg.toNat
  fits : userProg.toNat + 4 * words ≤ 0xF0800000

/-- `_user_end`, with `_user_start` = 0. -/
def Image.userEnd (I : Image) : BitVec 32 := BitVec.ofNat 32 (4 * I.words)

/-- The registers r2 to r31. -/
def cleared : List Gpr := (List.range 30).map fun n => BitVec.ofNat 5 (n + 2)

/-- `l.addi rX,r0,0x0` for all of them. -/
def clearCode : List Insn := cleared.map fun r => lAddi r 0 0

/-- From `_reset`, at 0x100. -/
def resetCode (I : Image) : List Insn :=
  [lNop] ++ clearCode ++ [lMovhi 3 (hi I.start), lOri 3 3 (lo I.start), lJr 3, lNop]

/-- Show a status on the LEDs. -/
def showCode (k : BitVec 16) : List Insn :=
  [lAddi 5 0 0, lMovhi 5 (hi gpioBase), lOri 5 5 (lo gpioBase), lAddi 6 0 k, lSw 4 5 6]

/-- `copy_from_flash_to_ram`, up to the loop. -/
def setupCode (I : Image) : List Insn :=
  [lMovhi 3 (hi I.userProg), lOri 3 3 (lo I.userProg), lMovhi 4 (hi 0), lOri 4 4 (lo 0),
    lMovhi 5 (hi I.userEnd), lOri 5 5 (lo I.userEnd), lSub 5 5 4, lSfeqi 5 0]

def skipCode : List Insn := [lBf 11, lNop, lAddi 6 0 0]

/-- The loop at label 1. -/
def loopCode : List Insn :=
  [lLwz 6 0 3, lSw 0 4 6, lAddi 3 3 4, lAddi 4 4 4, lAddi 5 5 (-4), lSfgtsi 5 0, lBf (-6), lNop]

/-- The jump into the RAM; `r2` is cleared in its delay slot. -/
def leaveCode : List Insn := [lAddi 2 0 0x100, lJr 2, lAddi 2 0 0]

/-- From `_start`. -/
def textCode (I : Image) : List Insn :=
  showCode 4 ++ setupCode I ++ skipCode ++ loopCode ++ showCode 8 ++ clearCode ++ leaveCode

/-! ### Contracts -/

variable {imem : Word → Insn} {s : State} {a : Word}

/-- The status is stored in the output register. -/
theorem show_reaches {k : BitVec 16} (h : Holds imem a (showCode k)) (ha : s.At a)
    (h0 : s.gpr 0#5 = 0#32) : ∃ s', Reaches imem s s' ∧ s'.At (a + 5) ∧
      s'.mem = store 4 (gpioBase + 4) (k.signExtend 32) s.mem ∧ s'.gpr 0#5 = 0#32 := by
  have hc : Code imem a [.arith .add 5 0 (.imm 0), .movhi 5 (hi gpioBase),
      .arith .or 5 5 (.imm ((lo gpioBase).setWidth 32)), .arith .add 6 0 (.imm (k.signExtend 32)),
      .store .sw 5 6 4] := .of_holds h (by
    simp [showCode, decode_lAddi, decode_lMovhi, decode_lOri, decode_lSw])
  obtain ⟨hr, hat⟩ := Reaches.block hc ha (by
    simp [Operation.dest, Arith.value, Src.value, hi_or_lo, gpioBase])
  refine ⟨_, hr, hat, ?_, ?_⟩
  · simp [execs, Arith.value, Src.value, hi_or_lo, h0]
  · simp [execs, h0]

/-- Registers are cleared one by one. -/
theorem clear_reaches : ∀ {l : List Gpr} {a : Word} {s : State}, 0#5 ∉ l →
    Holds imem a (l.map fun r => lAddi r 0 0) → s.At a → s.gpr 0#5 = 0#32 →
    ∃ s', Reaches imem s s' ∧ s'.At (a + BitVec.ofNat 30 l.length) ∧ s'.mem = s.mem ∧
      ∀ r, s'.gpr r = if r ∈ l then 0 else s.gpr r := by
  intro l
  induction l with
  | nil =>
    intro a s _ _ ha _
    exact ⟨s, .refl s, by simpa using ha, rfl, fun r => by simp⟩
  | cons r l ih =>
    intro a s hn h ha h0
    rw [List.mem_cons, not_or] at hn
    obtain ⟨hw, hl⟩ := h
    have hop : decode (imem a) = some (.arith .add r 0 (.imm 0)) := by
      rw [hw, decode_lAddi]
      rfl
    have hr0 : r ≠ 0#5 := fun h => hn.1 h.symm
    obtain ⟨hr, hat⟩ := Reaches.next hop ha
      ⟨trivial, fun h => hr0 (Option.some.inj h), by simp⟩
    have hg : ∀ r', (Operation.exec s (.arith .add r 0 (.imm 0))).gpr r' =
        if r' = r then 0 else s.gpr r' := by
      intro r'
      simp [hr0, Arith.value, Src.value, h0]
    obtain ⟨s', hr', hat', hm, hg'⟩ := ih hn.2 hl hat (by rw [hg, if_neg hn.1, h0])
    refine ⟨s', hr.trans hr', ?_, by rw [hm]; simp, fun r' => ?_⟩
    · have hadr : a + 1 + BitVec.ofNat 30 l.length = a + BitVec.ofNat 30 (r :: l).length := by
        rw [List.length_cons, BitVec.ofNat_add]
        ac_rfl
      rw [← hadr]
      exact hat'
    · rw [hg', hg]
      by_cases h1 : r' ∈ l <;> by_cases h2 : r' = r <;> simp [h1, h2]

theorem mem_cleared (r : Gpr) : r ∈ cleared ↔ r ≠ 0 ∧ r ≠ 1 := by
  revert r
  decide

variable {I : Image}

/-- `_reset` jumps to `_start`. -/
theorem reset_reaches (h : Holds imem a (resetCode I)) (ha : s.At a) (h0 : s.gpr 0#5 = 0#32) :
    ∃ s', Reaches imem s s' ∧ s'.At (I.start.extractLsb' 2 30) ∧ s'.mem = s.mem ∧
      s'.gpr 0#5 = 0#32 := by
  rw [resetCode, holds_append, holds_append] at h
  obtain ⟨⟨hnop, hclr⟩, hjmp⟩ := h
  have hc0 : decode (imem a) = some .nop := by
    rw [hnop.1]
    rfl
  obtain ⟨hr1, hat1⟩ := Reaches.next hc0 ha (plain_nop s)
  obtain ⟨s2, hr2, hat2, hm2, hg2⟩ := clear_reaches (by rw [mem_cleared]; simp) hclr hat1
    (by simpa using h0)
  have h02 : s2.gpr 0#5 = 0#32 := by
    rw [hg2, if_neg (by rw [mem_cleared]; simp)]
    simpa using h0
  have hat2 : s2.At (a + 31) := by
    rwa [show a + 31 = a + 1 + BitVec.ofNat 30 cleared.length by rw [BitVec.add_assoc]; rfl]
  have hadr : Code imem (a + 31) [.movhi 3 (hi I.start),
      .arith .or 3 3 (.imm ((lo I.start).setWidth 32)), .jumpReg 3 false, .nop] :=
    .of_holds hjmp (by simp [decode_lMovhi, decode_lOri, decode_lJr, decode_lNop])
  have hload : Code imem (a + 31) [.movhi 3 (hi I.start),
      .arith .or 3 3 (.imm ((lo I.start).setWidth 32))] := ⟨hadr.1, hadr.2.1, trivial⟩
  obtain ⟨hr3, hat3⟩ := Reaches.block hload hat2 (by simp [Operation.dest])
  have hjc : Code imem (a + 31 + 2) [.jumpReg 3 false, .nop] := by
    rw [show a + 31 + 2 = a + 31 + 1 + 1 by rw [BitVec.add_assoc (a + 31)]; rfl]
    exact hadr.2.2
  have htgt : Operation.target? (execs [.movhi 3 (hi I.start),
      .arith .or 3 3 (.imm ((lo I.start).setWidth 32))] s2) (.jumpReg 3 false) =
        some (I.start.extractLsb' 2 30) := by
    simp [execs, Operation.target?, Arith.value, Src.value, hi_or_lo]
  obtain ⟨hr4, hat4⟩ := Reaches.branch hjc hat3 (by decide) (by simp) (plain_nop _)
  rw [htgt] at hat4
  refine ⟨_, hr1.trans (hr2.trans (hr3.trans hr4)), hat4, ?_, ?_⟩
  · simp [execs, hm2]
  · simp [execs, h02]

/-! ### The copy loop -/

/-- The memory after `k` words have been copied. -/
def copied (I : Image) (m : BitVec 32 → BitVec 8) (k : ℕ) (b : BitVec 32) : BitVec 8 :=
  if b.toNat < 4 * k then m (I.userProg + b) else m b

/-- INVARIANT at label 1, with `k` words copied. -/
structure Copying (I : Image) (m : BitVec 32 → BitVec 8) (k : ℕ) (s : State) : Prop where
  zero : s.gpr 0#5 = 0#32
  src : s.gpr 3#5 = I.userProg + BitVec.ofNat 32 (4 * k)
  dst : s.gpr 4#5 = BitVec.ofNat 32 (4 * k)
  left : s.gpr 5#5 = BitVec.ofNat 32 (4 * (I.words - k))
  mem : s.mem = copied I m k

theorem Copying.congr {m : BitVec 32 → BitVec 8} {k : ℕ} {s' : State} (h : Copying I m k s)
    (hg : s'.gpr = s.gpr) (hm : s'.mem = s.mem) : Copying I m k s' := by
  obtain ⟨h1, h2, h3, h4, h5⟩ := h
  rw [← hg] at h1 h2 h3 h4
  exact ⟨h1, h2, h3, h4, hm.trans h5⟩

/-- Copying one more word. -/
theorem store_copied {m : BitVec 32 → BitVec 8} {k : ℕ} (hk : k < I.words) :
    store 4 (BitVec.ofNat 32 (4 * k))
      (wordAt (copied I m k) (I.userProg + BitVec.ofNat 32 (4 * k))) (copied I m k) =
        copied I m (k + 1) := by
  have hft := I.fits
  have hfl := I.flash
  funext b
  have hb := b.isLt
  have hsub : (b - BitVec.ofNat 32 (4 * k)).toNat = (2 ^ 32 - 4 * k + b.toNat) % 2 ^ 32 := by
    rw [BitVec.toNat_sub, BitVec.toNat_ofNat]
    omega
  rw [store_wordAt]
  split
  · next h =>
    -- the word itself is in the flash, which the copy has not touched
    have hadr : I.userProg + BitVec.ofNat 32 (4 * k) + (b - BitVec.ofNat 32 (4 * k)) =
        I.userProg + b := by
      rw [BitVec.add_assoc, BitVec.add_comm _ (b - _), BitVec.sub_add_cancel]
    have hsrc : (I.userProg + b).toNat = I.userProg.toNat + b.toNat := by
      rw [BitVec.toNat_add, Nat.mod_eq_of_lt (by omega)]
    rw [hadr, copied, if_neg (by omega), copied, if_pos (by omega)]
  · next h =>
    rw [copied, copied]
    split_ifs <;> first | rfl | omega

/-- The loop up to its branch. -/
def turnOps : List Operation :=
  [.load .lwz 6 3 0, .store .sw 4 6 0, .arith .add 3 3 (.imm 4), .arith .add 4 4 (.imm 4),
    .arith .add 5 5 (.imm (-4)), .set .gts 5 (.imm 0)]

section Turn

variable {m : BitVec 32 → BitVec 8} {k : ℕ}

/-- STEP: one turn copies one word. -/
theorem Copying.turn (hs : Copying I m k s) (hk : k < I.words) :
    Copying I m (k + 1) (execs turnOps s) := by
  refine ⟨?_, ?_, ?_, ?_, ?_⟩
  · simp [turnOps, execs, hs.zero]
  · simp [turnOps, execs, hs.src, Arith.value, Src.value, Nat.mul_add, BitVec.ofNat_add,
      BitVec.add_assoc]
  · simp [turnOps, execs, hs.dst, Arith.value, Src.value, Nat.mul_add, BitVec.ofNat_add]
  · obtain ⟨d, hd⟩ := Nat.exists_eq_add_of_lt hk
    have hleft := hs.left
    rw [show I.words - k = d + 1 by omega, Nat.mul_add, BitVec.ofNat_add] at hleft
    rw [show I.words - (k + 1) = d by omega]
    simp [turnOps, execs, Arith.value, Src.value, hleft, BitVec.add_assoc]
  · simp [turnOps, execs, hs.src, hs.dst, hs.mem, store_copied hk]

/-- The flag tells whether words are left; their number is positive also with sign. -/
theorem Copying.flag_turn (hs : Copying I m k s) (hk : k < I.words) :
    (execs turnOps s).flag = decide (k + 1 < I.words) := by
  have hft := I.fits
  have hfl := I.flash
  have hset : (execs turnOps s).flag = Cond.gts.holds ((execs turnOps s).gpr 5#5) 0#32 := by
    simp only [turnOps, execs, exec_set, Src.value]
    rfl
  have hint : ((execs turnOps s).gpr 5#5).toInt = (4 * (I.words - (k + 1)) : ℕ) := by
    rw [(hs.turn hk).left, BitVec.toInt_eq_toNat_of_lt, BitVec.toNat_ofNat,
      Nat.mod_eq_of_lt (by omega)]
    rw [BitVec.toNat_ofNat]
    omega
  rw [hset, Cond.holds, hint, BitVec.toInt_zero, decide_eq_decide]
  omega

/-- One turn of the loop: it is left when all words have been copied. -/
theorem turn_reaches (h : Holds imem a loopCode) (ha : s.At a) (hs : Copying I m k s)
    (hk : k < I.words) : ∃ s', Reaches imem s s' ∧ Copying I m (k + 1) s' ∧
      s'.At (if k + 1 < I.words then a else a + 8) := by
  have hc : Code imem a [.load .lwz 6 3 0, .store .sw 4 6 0, .arith .add 3 3 (.imm 4),
      .arith .add 4 4 (.imm 4), .arith .add 5 5 (.imm (-4)), .set .gts 5 (.imm 0),
      .branch (-6) true, .nop] := .of_holds h (by
    simp [loopCode, decode_lLwz, decode_lSw, decode_lAddi, decode_lSfgtsi, decode_lBf, decode_lNop])
  obtain ⟨c0, c1, c2, c3, c4, c5, c6, c7, -⟩ := hc
  have hbody : Code imem a turnOps := ⟨c0, c1, c2, c3, c4, c5, trivial⟩
  obtain ⟨hr, hat⟩ := Reaches.block hbody ha (by
    simpa [turnOps, Operation.dest, hs.src, hs.dst] using I.prog_aligned)
  have hcopy := hs.turn hk
  have hflag := hs.flag_turn hk
  generalize execs turnOps s = s1 at hr hat hcopy hflag
  have hbr : Code imem (a + 6) [.branch (-6) true, .nop] := by
    refine ⟨?_, ?_, trivial⟩
    · rw [show a + 6 = a + 1 + 1 + 1 + 1 + 1 + 1 by simp [BitVec.add_assoc]]
      exact c6
    · rw [show a + 6 + 1 = a + 1 + 1 + 1 + 1 + 1 + 1 + 1 by simp [BitVec.add_assoc]]
      exact c7
  have hat : s1.At (a + 6) := hat
  obtain ⟨hr', hat'⟩ := Reaches.branch hbr hat (by decide) (by simp) (plain_nop _)
  refine ⟨_, hr.trans hr', hcopy.congr (by simp) (by simp), ?_⟩
  have htgt : (Operation.target? s1 (.branch (-6) true)).getD (a + 6 + 2) =
      if k + 1 < I.words then a else a + 8 := by
    have hpc : s1.arch.pc = a + 6 := congrArg Arch.pc hat
    rw [Operation.target?, hflag, hpc]
    by_cases hk' : k + 1 < I.words
    · rw [if_pos (decide_eq_true hk'), if_pos hk', BitVec.add_comm a, ← BitVec.add_assoc]
      simp
    · rw [if_neg (by simp [hk']), if_neg hk', BitVec.add_assoc]
      rfl
  rw [← htgt]
  exact hat'

end Turn

/-- The loop copies the words that are left. -/
theorem loop_reaches {m : BitVec 32 → BitVec 8} (h : Holds imem a loopCode) :
    ∀ {d k : ℕ} {s : State}, I.words = k + 1 + d → Copying I m k s → s.At a →
      ∃ s', Reaches imem s s' ∧ Copying I m I.words s' ∧ s'.At (a + 8) := by
  intro d
  induction d with
  | zero =>
    intro k s hd hs ha
    obtain ⟨s', hr, hc, hat⟩ := turn_reaches h ha hs (by omega)
    rw [if_neg (by omega)] at hat
    exact ⟨s', hr, hd ▸ hc, hat⟩
  | succ d ih =>
    intro k s hd hs ha
    obtain ⟨s', hr, hc, hat⟩ := turn_reaches h ha hs (by omega)
    rw [if_pos (by omega)] at hat
    obtain ⟨s'', hr', hc', hat'⟩ := ih (by omega) hc hat
    exact ⟨s'', hr.trans hr', hc', hat'⟩

/-- The registers of the copy. -/
theorem setup_reaches (h : Holds imem a (setupCode I)) (ha : s.At a) (h0 : s.gpr 0#5 = 0#32) :
    ∃ s', Reaches imem s s' ∧ s'.At (a + 8) ∧ Copying I s.mem 0 s' ∧
      s'.flag = decide (I.words = 0) := by
  have hft := I.fits
  have hfl := I.flash
  have hc : Code imem a [.movhi 3 (hi I.userProg),
      .arith .or 3 3 (.imm ((lo I.userProg).setWidth 32)), .movhi 4 (hi 0),
      .arith .or 4 4 (.imm ((lo 0).setWidth 32)), .movhi 5 (hi I.userEnd),
      .arith .or 5 5 (.imm ((lo I.userEnd).setWidth 32)), .arith .sub 5 5 (.reg 4),
      .set .eq 5 (.imm 0)] := .of_holds h (by
    simp [setupCode, decode_lMovhi, decode_lOri, decode_lSub, decode_lSfeqi])
  obtain ⟨hr, hat⟩ := Reaches.block hc ha (by simp [Operation.dest])
  have hend : (BitVec.ofNat 32 (4 * I.words) = 0#32) ↔ I.words = 0 := by
    rw [BitVec.toNat_eq, BitVec.toNat_ofNat, BitVec.toNat_ofNat]
    omega
  refine ⟨_, hr, hat, ⟨?_, ?_, ?_, ?_, ?_⟩, ?_⟩
  · simp [execs, h0]
  · simp [execs, Arith.value, Src.value, hi_or_lo]
  · simp [execs, Arith.value, Src.value, hi_or_lo]
  · simp [execs, Arith.value, Src.value, hi_or_lo, Image.userEnd]
  · funext b
    simp [execs, copied]
  · simp [execs, Arith.value, Src.value, hi_or_lo, Cond.holds, Image.userEnd, hend]

/-- The copy, from the test for an empty program to label 2. -/
theorem copy_reaches {m : BitVec 32 → BitVec 8} (hskip : Holds imem a skipCode)
    (hloop : Holds imem (a + 3) loopCode) (ha : s.At a) (hs : Copying I m 0 s)
    (hf : s.flag = decide (I.words = 0)) :
    ∃ s', Reaches imem s s' ∧ Copying I m I.words s' ∧ s'.At (a + 11) := by
  have hc : Code imem a [.branch 11 true, .nop, .arith .add 6 0 (.imm 0)] := .of_holds hskip (by
    simp [skipCode, decode_lBf, decode_lNop, decode_lAddi])
  obtain ⟨c0, c1, c2, -⟩ := hc
  obtain ⟨hr, hat⟩ := Reaches.branch ⟨c0, c1, trivial⟩ ha (by decide) (by simp) (plain_nop _)
  have hs2 : Copying I m 0 (Operation.exec (Operation.exec s (.branch 11 true)) .nop) :=
    hs.congr (by simp) (by simp)
  have hpc : s.arch.pc = a := congrArg Arch.pc ha
  rw [Operation.target?, hf, hpc] at hat
  by_cases hw : I.words = 0
  · refine ⟨_, hr, hw ▸ hs2, ?_⟩
    rw [if_pos (decide_eq_true hw), BitVec.add_comm] at hat
    exact hat
  · rw [if_neg (by simp [hw])] at hat
    have hat : State.At (Operation.exec (Operation.exec s (.branch 11 true)) .nop) (a + 2) := hat
    generalize Operation.exec (Operation.exec s (.branch 11 true)) .nop = s2 at hs2 hr hat
    have c2 : decode (imem (a + 2)) = some (.arith .add 6 0 (.imm 0)) := by
      rwa [BitVec.add_assoc] at c2
    obtain ⟨hr3, hat3⟩ := Reaches.next c2 hat ⟨trivial, by decide, by simp⟩
    rw [show a + 2 + 1 = a + 3 by simp [BitVec.add_assoc]] at hat3
    have hs3 : Copying I m 0 (Operation.exec s2 (.arith .add 6 0 (.imm 0))) :=
      ⟨by simp [hs2.zero], by simp [hs2.src], by simp [hs2.dst], by simp [hs2.left],
        by simp [hs2.mem]⟩
    obtain ⟨d, hd⟩ := Nat.exists_eq_add_of_lt (Nat.pos_of_ne_zero hw)
    obtain ⟨s', hr4, hc4, hat4⟩ := loop_reaches hloop (d := d) (by omega) hs3 hat3
    refine ⟨s', hr.trans (hr3.trans hr4), hc4, ?_⟩
    rw [show a + 11 = a + 3 + 8 by simp [BitVec.add_assoc]]
    exact hat4

/-! ### The whole program -/

/-- The memory that the user program finds: itself in the RAM, and the last status in the output
    register. -/
def loaded (I : Image) (m : BitVec 32 → BitVec 8) : BitVec 32 → BitVec 8 :=
  store 4 (gpioBase + 4) 8 (copied I m I.words)

/-- The first status is overwritten by the second, and the copy has not seen it. -/
theorem store_copied_store (m : BitVec 32 → BitVec 8) :
    store 4 (gpioBase + 4) 8 (copied I (store 4 (gpioBase + 4) 4 m) I.words) = loaded I m := by
  have hft := I.fits
  have hfl := I.flash
  have hout : ∀ b : BitVec 32, (b - (gpioBase + 4)).toNat < 4 ↔
      0xE0000004 ≤ b.toNat ∧ b.toNat < 0xE0000008 := by
    intro b
    have hb := b.isLt
    rw [BitVec.toNat_sub, show (gpioBase + 4).toNat = 0xE0000004 from rfl]
    omega
  funext b
  rw [loaded]
  unfold store
  split
  · rfl
  · next h =>
    rw [copied, copied]
    have hb := b.isLt
    split
    · have hsrc : (I.userProg + b).toNat = I.userProg.toNat + b.toNat := by
        rw [BitVec.toNat_add, Nat.mod_eq_of_lt (by omega)]
      rw [if_neg]
      rw [hout, hsrc]
      omega
    · rfl

theorem text_holds (h : Holds imem a (textCode I)) :
    Holds imem a (showCode 4) ∧ Holds imem (a + 5) (setupCode I) ∧ Holds imem (a + 13) skipCode ∧
      Holds imem (a + 16) loopCode ∧ Holds imem (a + 24) (showCode 8) ∧
      Holds imem (a + 29) clearCode ∧ Holds imem (a + 59) leaveCode := by
  simp only [textCode, holds_append] at h
  obtain ⟨⟨⟨⟨⟨⟨h0, h1⟩, h2⟩, h3⟩, h4⟩, h5⟩, h6⟩ := h
  exact ⟨h0, h1, h2, h3, h4, h5, h6⟩

/-- The jump to the reset vector, with r2 cleared. -/
theorem leave_reaches (h : Holds imem a leaveCode) (ha : s.At a) (h0 : s.gpr 0#5 = 0#32) :
    ∃ s', Reaches imem s s' ∧ s'.At bootAdr ∧ s'.mem = s.mem ∧
      ∀ r, s'.gpr r = if r = 2 then 0 else s.gpr r := by
  obtain ⟨c0, c1, c2, -⟩ : Code imem a
      [.arith .add 2 0 (.imm 0x100), .jumpReg 2 false, .arith .add 2 0 (.imm 0)] :=
    .of_holds h (by simp [leaveCode, decode_lAddi, decode_lJr])
  obtain ⟨hr, hat⟩ := Reaches.next c0 ha ⟨trivial, by decide, by simp⟩
  have htgt : Operation.target? (Operation.exec s (.arith .add 2 0 (.imm 0x100)))
      (.jumpReg 2 false) = some bootAdr := by
    simp [Operation.target?, Arith.value, Src.value, h0, bootAdr]
  obtain ⟨hr', hat'⟩ := Reaches.branch ⟨c1, c2, trivial⟩ hat (by decide) (by simp)
    ⟨trivial, by decide, by simp⟩
  rw [htgt] at hat'
  refine ⟨_, hr.trans hr', hat', by simp, fun r => ?_⟩
  by_cases h2 : r = 2#5
  · simp [h2, Arith.value, Src.value, h0]
  · simp [h2]

/-- From reset the program copies the user program and starts it. -/
theorem boot_reaches (hr : Holds imem bootAdr (resetCode I))
    (ht : Holds imem (I.start.extractLsb' 2 30) (textCode I)) (m : BitVec 32 → BitVec 8) :
    ∃ s, Reaches imem (boot m) s ∧ s.At bootAdr ∧ s.mem = loaded I m ∧
      ∀ r, r ≠ 1 → s.gpr r = 0 := by
  obtain ⟨t0, t1, t2, t3, t4, t5, t6⟩ := text_holds ht
  obtain ⟨s1, r1, at1, m1, z1⟩ := reset_reaches hr (s := boot m) rfl rfl
  obtain ⟨s2, r2, at2, m2, z2⟩ := show_reaches t0 at1 z1
  obtain ⟨s3, r3, at3, c3, f3⟩ := setup_reaches t1 at2 z2
  rw [BitVec.add_assoc] at at3
  obtain ⟨s4, r4, c4, at4⟩ := copy_reaches t2 (by rw [BitVec.add_assoc]; exact t3) at3 c3 f3
  rw [BitVec.add_assoc] at at4
  obtain ⟨s5, r5, at5, m5, z5⟩ := show_reaches t4 at4 c4.zero
  rw [BitVec.add_assoc] at at5
  obtain ⟨s6, r6, at6, m6, g6⟩ := clear_reaches (by rw [mem_cleared]; simp) t5 at5 z5
  rw [BitVec.add_assoc] at at6
  have hz6 : ∀ r, r ≠ 1 → s6.gpr r = 0 := by
    intro r hr
    rw [g6]
    by_cases h : r ∈ cleared
    · rw [if_pos h]
    · rw [mem_cleared, not_and_or, not_not, not_not] at h
      rw [if_neg (by rw [mem_cleared]; tauto), h.resolve_right hr]
      exact z5
  obtain ⟨s7, r7, at7, m7, g7⟩ := leave_reaches t6 at6 (hz6 0 (by decide))
  refine ⟨s7, r1.trans (r2.trans (r3.trans (r4.trans (r5.trans (r6.trans r7))))), at7, ?_,
    fun r hr => ?_⟩
  · rw [m7, m6, m5, c4.mem, m2, m1]
    exact store_copied_store m
  · rw [g7, hz6 r hr, ite_self]

/-- The words at the reset vector are valid, whatever comes after them. -/
theorem reset_valid (h : Holds imem bootAdr (resetCode I)) (ha : s.At bootAdr) :
    ∀ k < 3, Valid ((fun s => step s imem)^[k] s) imem := by
  rw [resetCode, holds_append, holds_append] at h
  obtain ⟨⟨hnop, hclr⟩, -⟩ := h
  have hclr : Holds imem (bootAdr + 1) clearCode := hclr
  have hc : Code imem bootAdr [.nop, .arith .add 2 0 (.imm 0), .arith .add 3 0 (.imm 0)] := by
    refine ⟨?_, ?_, ?_, trivial⟩
    · rw [hnop.1, decode_lNop]
    · rw [hclr.1, decode_lAddi]
      rfl
    · rw [hclr.2.1, decode_lAddi]
      rfl
  exact hc.valid ha (by simp [Operation.dest])

/-- The core boots: in every run over a flash with this program, whatever the fetch and the data
    port delay and whatever else the flash holds, there is a cycle in which the RAM holds the user
    program, the output register the last status and all other bytes what they held at reset, the
    registers r2 to r31 are clear, and the next instruction to be executed is the one at the reset
    vector. -/
theorem core_boots (hr : Holds imem bootAdr (resetCode I))
    (ht : Holds imem (I.start.extractLsb' 2 30) (textCode I)) {m : BitVec 30 → BitVec 32}
    (R : (Processor.machine imem m).Run) (hf : Processor.FetchAnswers R)
    (hd : Processor.DataAnswers R) :
    ∃ t, bytes (R.state t).mem = loaded I (bytes m) ∧
      (∀ r, r ≠ 0 → r ≠ 1 → (R.state t).pl.ops.mem r = 0) ∧
      (isVoid (R.state t).pl.exInsn = false → (R.state t).exPc = bootAdr) := by
  obtain ⟨s, hreach, hat, hmem, hgpr⟩ := boot_reaches hr ht (bytes m)
  obtain ⟨n, rfl, hvalid⟩ := hreach.iterate
  have hv : ∀ k < n + 3, Valid (Isa.run imem (bytes m) k) imem := by
    intro k hk
    by_cases hkn : k < n
    · exact hvalid k hkn
    · -- behind the last jump the core already looks at the words of the reset vector
      obtain ⟨j, rfl⟩ := Nat.exists_eq_add_of_le (Nat.le_of_not_lt hkn)
      have h := reset_valid hr hat j (by omega)
      rwa [← Function.iterate_add_apply, Nat.add_comm j n] at h
  obtain ⟨t, rfl⟩ := Processor.retires_executed hv hf hd (n := n) (by omega)
  have h := Processor.shows_executed hv (R := R) (t := t) (by omega)
  refine ⟨t, h.mem.trans hmem, fun r h0 h1 => (h.gpr r h0).trans (hgpr r h1), fun hv => ?_⟩
  exact (h.insn hv).1.trans (congrArg Arch.pc hat)

/-! A user program of one word. -/

def demo : Image where
  start := 0xF000018C
  userProg := 0xF0000400
  words := 1
  start_aligned := by decide +kernel
  prog_aligned := by decide +kernel
  flash := by decide +kernel
  fits := by decide +kernel

/-- The two parts of the program, and `l.mtspr` elsewhere. -/
def demoFlash (a : Word) : Insn :=
  if a.toNat < 0x63 then (resetCode demo).getD (a.toNat - 0x40) 0xC0005811
  else (textCode demo).getD (a.toNat - 0x3C000063) 0xC0005811

theorem demoFlash_reset : Holds demoFlash bootAdr (resetCode demo) := by decide +kernel

theorem demoFlash_text : Holds demoFlash (demo.start.extractLsb' 2 30) (textCode demo) := by
  decide +kernel

/-- The user program is `l.nop`. -/
def demoMem (a : BitVec 30) : BitVec 32 := if a = 0x3C000100 then lNop else 0

/-- Its first byte comes to address 0. -/
theorem core_boots_demo : ∃ t,
    bytes ((Processor.eagerRun demoFlash demoMem).state t).mem 0 = 0x15 ∧
      ((Processor.eagerRun demoFlash demoMem).state t).pl.ops.mem 3 = 0 := by
  obtain ⟨t, hm, hg, -⟩ := core_boots demoFlash_reset demoFlash_text
    (Processor.eagerRun demoFlash demoMem) (Processor.eagerRun_fetch demoMem)
    (Processor.eagerRun_data demoMem)
  refine ⟨t, ?_, hg 3 (by decide) (by decide)⟩
  rw [hm]
  decide +kernel

end DsdOrsoc.Sw
