import DsdOrsoc.Or1200.Frontend
import DsdOrsoc.Schemes.Bits
import DsdOrsoc.Schemes.Progress

/-! What the front end delivers is the ARCHITECTURAL stream. The architecture has two program
    counters: executing the word at `pc` goes on at `npc`, and a taken branch replaces what comes
    after that, so that its delay slot is executed once.

    The simulation relates the front end to the next word that leaves ID. There are three STAGES:

        empty   ID is a bubble; `pc` is saved or being fetched, `npc` comes after it
        full    ID holds the word at `pc`, nothing is redirected; `npc` is saved or being fetched
        slot    ID holds a delay slot while its branch is in EX: whatever the port answers is
                discarded until both move, and the target is what it has been asked for by then -/

namespace DsdOrsoc.Or1200
open Schemes

/-! ### The architecture -/

/-- The address of the next instruction and of the one after it. -/
@[ext] structure Arch where
  pc : Word
  npc : Word

/-- What an instruction finds in the rest of the machine. -/
structure Outcome where
  flag : Bool
  operandB : Word

namespace Arch

/-- Out of reset. -/
def boot : Arch := ⟨bootAdr, bootAdr + 1⟩

variable (mem : Word → Insn) (a : Arch) (o : Outcome)

/-- The branch target of the instruction at `pc`, if it is a jump or a taken branch. -/
def target? : Option Word :=
  match branchOp (mem a.pc) with
  | .nop => none
  | .j => some (branchAddrtarget (mem a.pc) a.pc)
  | .jr => some o.operandB
  | .bf => if o.flag then some (branchAddrtarget (mem a.pc) a.pc) else none
  | .bnf => if o.flag then none else some (branchAddrtarget (mem a.pc) a.pc)
  | .rfe => none

/-- Execute the instruction at `pc`. -/
def next : Arch := ⟨a.npc, (a.target? mem o).getD (a.npc + 1)⟩

/-- The instructions that are executed under a sequence of outcomes, with their addresses. -/
def stream : Arch → List Outcome → List (Word × Insn)
  | _, [] => []
  | a, o :: os => (a.pc, mem a.pc) :: stream (a.next mem o) os

theorem stream_concat (os : List Outcome) (o : Outcome) : ∀ a : Arch,
    stream mem a (os ++ [o]) = stream mem a os ++
      [((os.foldl (next mem) a).pc, mem (os.foldl (next mem) a).pc)] := by
  induction os with
  | nil => intro a; rfl
  | cons o' os ih =>
    intro a
    simp only [List.cons_append, stream, List.foldl_cons, ih]

end Arch

namespace Frontend

variable {mem : Word → Insn} {s : Frontend} {i : FrontendIn}

/-- A word leaves ID for EX. -/
def advances (s : Frontend) (i : FrontendIn) : Bool := !s.freeze i && !isVoid s.idInsn

/-! ### Fetching -/

theorem pc_of_not_taken (h : s.exBranchTaken = false) : s.pc i = s.pcreg + 1 := by
  cases hb : s.exBranchOp <;> simp_all [exBranchTaken, pc]

theorem branch_of_taken (h : s.exBranchTaken = true) : s.exBranchOp ≠ .nop := by
  rintro hb
  simp [exBranchTaken, hb] at h

theorem noMoreDslot_eq (h : s.exBranchOp ≠ .rfe) :
    s.noMoreDslot = (!isVoid s.idInsn && s.exBranchTaken) := by
  cases ht : s.exBranchTaken with
  | false => simp [noMoreDslot, ht, h]
  | true => simp [noMoreDslot, ht, h, branch_of_taken ht]

/-- The first edge after reset comes before any acknowledge, so the boot address is kept. -/
theorem pcreg_clk (hb : s.pcregSelect = true → i.icpuAckI = false ∧ s.noMoreDslot = false) :
    (s.clk mem i).pcreg =
      if s.noMoreDslot || (i.icpuAckI && !s.genpcRefetch i) then s.pc i else s.pcreg := by
  cases hsel : s.pcregSelect with
  | false => simp [pcreg, clk, hsel]
  | true =>
    obtain ⟨h1, h2⟩ := hb hsel
    simp [pcreg, clk, hsel, h1, h2]

/-- The front end asks the port for `x`. -/
structure Fetching (s : Frontend) (x : Word) : Prop where
  pcreg : s.pcreg = x
  adr : s.icpuAdr = x
  port : s.port = none ∨ s.port = some x

section Fetch

variable (hb : s.pcregSelect = true → i.icpuAckI = false ∧ s.noMoreDslot = false)
  (hn : s.noMoreDslot = false)
include hb hn

/-- Without a new word the same address is asked for. -/
theorem fetching_keep {x : Word} (h : s.Fetching x) (hk : i.icpuAckI = false ∨ s.saved = true) :
    (s.clk mem i).Fetching x := by
  have hre : (i.icpuAckI && !s.genpcRefetch i) = false := by
    rcases hk with hk | hk <;> cases ha : i.icpuAckI <;> simp_all [genpcRefetch]
  have hadr : s.icpuAdrO i = x := by
    rcases hk with hk | hk <;> cases ha : i.icpuAckI <;>
      simp_all [icpuAdrO, genpcRefetch, h.adr]
  refine ⟨?_, hadr, ?_⟩
  · rw [pcreg_clk hb, hn, hre]
    exact h.pcreg
  · change s.portNext i = none ∨ s.portNext i = some x
    unfold portNext
    split_ifs
    · exact .inl rfl
    · rw [hadr]
      exact .inr rfl
    · exact h.port

omit hn in
/-- With a new word the next address is asked for. -/
theorem fetching_next (ha : i.icpuAckI = true) (hs : s.saved = false) :
    (s.clk mem i).Fetching (s.pc i) := by
  have hadr : s.icpuAdrO i = s.pc i := by simp [icpuAdrO, genpcRefetch, ha, hs]
  refine ⟨?_, hadr, ?_⟩
  · rw [pcreg_clk hb]
    simp [genpcRefetch, ha, hs]
  · change s.portNext i = none ∨ s.portNext i = some (s.pc i)
    simp only [portNext, ha, or_true, if_true, hadr]
    split_ifs
    · exact .inl rfl
    · exact .inr rfl

end Fetch

theorem icpuDat_eq {x : Word} (h : s.Fetching x) (hp : s.port ≠ none) : s.icpuDat mem = mem x := by
  rw [icpuDat, h.port.resolve_left hp]
  rfl

/-- The next word is the one at `x`, saved or being fetched, and `y` is fetched after it. -/
def Upcoming (mem : Word → Insn) (s : Frontend) (x y : Word) : Prop :=
  (s.saved = false ∧ s.Fetching x) ∨
    (s.saved = true ∧ s.addrSaved = x ∧ s.insnSaved = mem x ∧ s.Fetching y)

section Upcoming

variable {x y : Word} (hb : s.pcregSelect = true → i.icpuAckI = false ∧ s.noMoreDslot = false)
  (hn : s.noMoreDslot = false) (hp : i.icpuAckI = true → s.port ≠ none)
  (hu : s.Upcoming mem x y) (hpc : s.saved = false → s.pc i = y)
include hb hn hp hu hpc

/-- A frozen pipeline saves the word when it comes. -/
theorem upcoming_freeze (hf : s.freeze i = true) : (s.clk mem i).Upcoming mem x y := by
  rcases hu with ⟨hs, hfx⟩ | ⟨hs, hax, hix, hfy⟩
  · cases ha : i.icpuAckI with
    | false =>
      refine .inl ⟨?_, fetching_keep hb hn hfx (.inl ha)⟩
      simp [clk, saveInsn, ha, hs]
    | true =>
      have hsave : s.saveInsn i = true := by simp [saveInsn, ha, hf, hs]
      refine .inr ⟨?_, ?_, ?_, ?_⟩
      · simp [clk, hsave]
      · simp [clk, hsave, hfx.adr]
      · simp [clk, hsave, icpuDat_eq hfx (hp ha)]
      · rw [← hpc hs]
        exact fetching_next hb ha hs
  · have hsave : s.saveInsn i = false := by simp [saveInsn, hs]
    refine .inr ⟨?_, ?_, ?_, fetching_keep hb hn hfy (.inr hs)⟩
    · simp [clk, hsave, hf, hs]
    · simp [clk, hsave, hf, hax]
    · simp [clk, hsave, hf, hix]

/-- A moving pipeline takes the word into ID, or a bubble when a load or store ends before it has
    come. -/
theorem upcoming_move (hr : s.rfe = false) (hf : s.freeze i = false) :
    (s.clk mem i).saved = false ∧
    ((s.ifInsn mem i = mem x ∧ s.ifPc = x ∧ (s.clk mem i).Fetching y) ∨
      (i.lsuUnstall = true ∧ s.ifInsn mem i = nopMissing ∧ (s.clk mem i).Fetching x)) := by
  have hsaved : (s.clk mem i).saved = false := by simp [clk, saveInsn, hf]
  refine ⟨hsaved, ?_⟩
  rcases hu with ⟨hs, hfx⟩ | ⟨hs, hax, hix, hfy⟩
  · cases ha : i.icpuAckI with
    | false =>
      refine .inr ⟨?_, ?_, fetching_keep hb hn hfx (.inl ha)⟩
      · cases hl : i.lsuUnstall <;> simp_all [freeze, ifStall]
      · simp [ifInsn, hn, hr, hs, ha]
    | true =>
      refine .inl ⟨?_, ?_, ?_⟩
      · simp [ifInsn, hn, hr, hs, ha, icpuDat_eq hfx (hp ha)]
      · simp [ifPc, hs, hfx.adr]
      · rw [← hpc hs]
        exact fetching_next hb ha hs
  · refine .inl ⟨?_, ?_, fetching_keep hb hn hfy (.inr hs)⟩
    · simp [ifInsn, hn, hr, hs, hix]
    · simp [ifPc, hs, hax]

end Upcoming

/-! ### Stages -/

/-- Where the front end stands with respect to the architecture. -/
inductive Stage (mem : Word → Insn) (s : Frontend) (a : Arch) : Prop
  | empty (hvoid : isVoid s.idInsn = true)
      (hseq : s.exBranchTaken = false → a.npc = a.pc + 1)
      (htgt : s.exBranchTaken = true → ∀ i, s.pc i = a.npc)
      (hup : s.Upcoming mem a.pc a.npc)
  | full (hpc : s.idPc = a.pc) (hinsn : s.idInsn = mem a.pc) (hseq : s.exBranchTaken = false)
      (hup : s.Upcoming mem a.npc (a.npc + 1))
  | slot (hpc : s.idPc = a.pc) (hinsn : s.idInsn = mem a.pc) (htkn : s.exBranchTaken = true)
      (htgt : ∀ i, s.pc i = a.npc) (hplain : branchOp (mem a.pc) = .nop)
      (hport : s.saved = true → s.port = some a.npc)

/-- The simulation relation. -/
structure Sim (mem : Word → Insn) (s : Frontend) (a : Arch) : Prop where
  idOp : s.idBranchOp = branchOp s.idInsn
  exOp : s.exBranchOp = branchOp s.exInsn
  exRfe : s.exBranchOp ≠ .rfe
  boot : s.pcregSelect = true → s.port = none ∧ s.exBranchTaken = false
  regular : a.npc = a.pc + 1 ∨ branchOp (mem a.pc) = .nop
  stage : s.Stage mem a

/-- A frozen pipeline keeps the branch in EX. -/
theorem taken_freeze (hf : s.freeze i = true) : (s.clk mem i).exBranchTaken = s.exBranchTaken := by
  simp [exBranchTaken, clk, hf]

theorem pc_freeze (hf : s.freeze i = true) (ht : s.exBranchTaken = true) (j : FrontendIn) :
    (s.clk mem i).pc j = s.pc j := by
  cases hb : s.exBranchOp <;> simp_all [exBranchTaken, pc, clk]

/-- A bubble in ID leaves no branch behind in EX. -/
theorem taken_of_void (hop : s.idBranchOp = branchOp s.idInsn) (hv : isVoid s.idInsn = true)
    (hf : s.freeze i = false) : (s.clk mem i).exBranchTaken = false := by
  simp [exBranchTaken, clk, hf, hop, branchOp_of_isVoid hv]

/-- The word that enters EX redirects the stream exactly if the architecture says so. -/
theorem exec_target {a : Arch} (hop : s.idBranchOp = branchOp s.idInsn) (hr : s.idBranchOp ≠ .rfe)
    (hpc : s.idPc = a.pc) (hinsn : s.idInsn = mem a.pc) (hf : s.freeze i = false) :
    match a.target? mem ⟨i.flagD, i.operandBD⟩ with
    | none => (s.clk mem i).exBranchTaken = false
    | some y => (s.clk mem i).exBranchTaken = true ∧ ∀ j, (s.clk mem i).pc j = y := by
  rw [hop, hinsn] at hr
  have hbr : (s.clk mem i).exBranchOp = branchOp (mem a.pc) := by simp [clk, hf, hop, hinsn]
  have hfl : (s.clk mem i).flag = i.flagD := by simp [clk, hf]
  have hadr : (s.clk mem i).exBranchAddrtarget = branchAddrtarget (mem a.pc) a.pc := by
    simp [clk, hf, hinsn, hpc]
  have hreg : (s.clk mem i).operandB = i.operandBD := by simp [clk, hf]
  simp only [Arch.target?, exBranchTaken, pc, hbr, hfl, hadr, hreg]
  cases hb : branchOp (mem a.pc) with
  | nop => exact rfl
  | j => exact ⟨rfl, fun _ => rfl⟩
  | jr => exact ⟨rfl, fun _ => rfl⟩
  | bf => cases i.flagD <;> simp
  | bnf => cases i.flagD <;> simp
  | rfe => exact absurd hb hr

end Frontend

/-- The programs in question: no `l.rfe`, no branch in a delay slot, and no word that looks like a
    bubble. -/
structure Program (mem : Word → Insn) : Prop where
  noRfe : ∀ a, branchOp (mem a) ≠ .rfe
  slots : ∀ a, branchOp (mem a) ≠ .nop → branchOp (mem (a + 1)) = .nop
  noVoid : ∀ a, isVoid (mem a) = false

namespace Frontend

section Step

variable {mem : Word → Insn} {s : Frontend} {i : FrontendIn} {a : Arch}

theorem Sim.idRfe (hm : Program mem) (h : s.Sim mem a) : s.idBranchOp ≠ .rfe := by
  rw [h.idOp]
  cases h.stage with
  | empty hvoid => simp [branchOp_of_isVoid hvoid]
  | full _ hinsn => rw [hinsn]; exact hm.noRfe _
  | slot _ hinsn => rw [hinsn]; exact hm.noRfe _

theorem Sim.noRfe (hm : Program mem) (h : s.Sim mem a) : s.rfe = false := by
  simp [rfe, h.idRfe hm, h.exRfe]

/-- No load or store, hence no bubble, while a taken branch is in EX. -/
theorem Sim.noUnstall (h : s.Sim mem a) (hl : (machine mem).legal s i)
    (ht : s.exBranchTaken = true) : i.lsuUnstall = false := by
  cases hu : i.lsuUnstall with
  | false => rfl
  | true =>
    have hnop := branchOp_of_isLsu (hl.2 hu)
    rw [← h.exOp] at hnop
    exact absurd hnop (branch_of_taken ht)

theorem Sim.bootAck (h : s.Sim mem a) (hl : (machine mem).legal s i) :
    s.pcregSelect = true → i.icpuAckI = false ∧ s.noMoreDslot = false := by
  intro hsel
  obtain ⟨hport, ht⟩ := h.boot hsel
  refine ⟨?_, ?_⟩
  · cases ha : i.icpuAckI with
    | false => rfl
    | true => exact absurd hport (hl.1 ha)
  · rw [noMoreDslot_eq h.exRfe, ht, Bool.and_false]

/-- The word after a jump or taken branch is no branch. -/
theorem Sim.slot_plain (hm : Program mem) (h : s.Sim mem a) {o : Outcome} {y : Word}
    (hT : a.target? mem o = some y) : branchOp (mem a.npc) = .nop := by
  have hbr : branchOp (mem a.pc) ≠ .nop := by
    intro hnop
    simp [Arch.target?, hnop] at hT
  rw [h.regular.resolve_right hbr]
  exact hm.slots _ hbr

/-- With ID empty, `npc` is fetched after `pc`. -/
theorem empty_pc (hseq : s.exBranchTaken = false → a.npc = a.pc + 1)
    (htgt : s.exBranchTaken = true → ∀ i, s.pc i = a.npc) (hup : s.Upcoming mem a.pc a.npc) :
    s.saved = false → s.pc i = a.npc := by
  intro hs
  cases ht : s.exBranchTaken with
  | true => exact htgt ht i
  | false =>
    rcases hup with ⟨-, hf⟩ | ⟨hs', -⟩
    · rw [pc_of_not_taken ht, hf.pcreg, hseq ht]
    · rw [hs] at hs'
      cases hs'

/-- STEP, ID empty. -/
theorem Sim.empty_clk (hm : Program mem) (h : s.Sim mem a) (hl : (machine mem).legal s i)
    (hvoid : isVoid s.idInsn = true) (hseq : s.exBranchTaken = false → a.npc = a.pc + 1)
    (htgt : s.exBranchTaken = true → ∀ i, s.pc i = a.npc) (hup : s.Upcoming mem a.pc a.npc) :
    (s.clk mem i).Stage mem a := by
  have hb := h.bootAck hl
  have hn : s.noMoreDslot = false := by rw [noMoreDslot_eq h.exRfe, hvoid]; rfl
  have hpc := empty_pc (i := i) hseq htgt hup
  cases hf : s.freeze i with
  | true =>
    refine .empty ?_ ?_ ?_ (upcoming_freeze hb hn hl.1 hup hpc hf)
    · simpa [clk, hf] using hvoid
    · rw [taken_freeze hf]
      exact hseq
    · rw [taken_freeze hf]
      intro ht j
      rw [pc_freeze hf ht]
      exact htgt ht j
  | false =>
    have ht' : (s.clk mem i).exBranchTaken = false := taken_of_void h.idOp hvoid hf
    obtain ⟨hsaved, ⟨hins, hifpc, hfy⟩ | ⟨hun, hins, hfx⟩⟩ :=
      upcoming_move hb hn hl.1 hup hpc (h.noRfe hm) hf
    · refine .full ?_ ?_ ht' (.inl ⟨hsaved, hfy⟩)
      · simpa [clk, hf] using hifpc
      · simpa [clk, hf] using hins
    · have ht : s.exBranchTaken = false := by
        by_contra ht
        rw [h.noUnstall hl (by simpa using ht)] at hun
        cases hun
      refine .empty ?_ (fun _ => hseq ht) ?_ (.inl ⟨hsaved, hfx⟩)
      · rw [show (s.clk mem i).idInsn = nopMissing by simpa [clk, hf] using hins]
        decide
      · rw [ht']
        intro hc
        cases hc

/-- A word of the program that is frozen in ID stays, and otherwise it is executed. -/
theorem advances_of_insn (hm : Program mem) (hinsn : s.idInsn = mem a.pc) :
    s.advances i = !s.freeze i := by
  simp [advances, hinsn, hm.noVoid]

/-- STEP, ID full. -/
theorem Sim.full_clk (hm : Program mem) (h : s.Sim mem a) (hl : (machine mem).legal s i)
    (hpc : s.idPc = a.pc) (hinsn : s.idInsn = mem a.pc) (hseq : s.exBranchTaken = false)
    (hup : s.Upcoming mem a.npc (a.npc + 1)) :
    (s.clk mem i).Stage mem
      (if s.advances i then a.next mem ⟨i.flagD, i.operandBD⟩ else a) := by
  have hb := h.bootAck hl
  have hn : s.noMoreDslot = false := by rw [noMoreDslot_eq h.exRfe, hseq, Bool.and_false]
  have hpc' : s.saved = false → s.pc i = a.npc + 1 := by
    intro hs
    rcases hup with ⟨-, hf⟩ | ⟨hs', -⟩
    · rw [pc_of_not_taken hseq, hf.pcreg]
    · rw [hs] at hs'
      cases hs'
  rw [advances_of_insn hm hinsn]
  cases hf : s.freeze i with
  | true =>
    refine .full ?_ ?_ ?_ (upcoming_freeze hb hn hl.1 hup hpc' hf)
    · simpa [clk, hf] using hpc
    · simpa [clk, hf] using hinsn
    · rw [taken_freeze hf]
      exact hseq
  | false =>
    have hx := exec_target h.idOp (h.idRfe hm) hpc hinsn hf
    have hmove := upcoming_move hb hn hl.1 hup hpc' (h.noRfe hm) hf
    obtain ⟨hsaved, ⟨hins, hifpc, hfy⟩ | ⟨-, hins, hfx⟩⟩ := hmove
    · have hid : (s.clk mem i).idInsn = mem a.npc := by simpa [clk, hf] using hins
      have hidpc : (s.clk mem i).idPc = a.npc := by simpa [clk, hf] using hifpc
      cases hT : a.target? mem ⟨i.flagD, i.operandBD⟩ with
      | none =>
        rw [hT] at hx
        refine .full hidpc hid hx (.inl ⟨hsaved, ?_⟩)
        simpa [Arch.next, hT] using hfy
      | some y =>
        rw [hT] at hx
        refine .slot hidpc hid hx.1 ?_ ?_ ?_
        · simpa [Arch.next, hT] using hx.2
        · exact h.slot_plain hm hT
        · rw [hsaved]
          intro hc
          cases hc
    · refine .empty ?_ ?_ ?_ (.inl ⟨hsaved, hfx⟩)
      · rw [show (s.clk mem i).idInsn = nopMissing by simpa [clk, hf] using hins]
        decide
      · intro ht
        cases hT : a.target? mem ⟨i.flagD, i.operandBD⟩ with
        | none => simp [Arch.next, hT]
        | some y =>
          rw [hT, ht] at hx
          cases hx.1
      · intro ht j
        cases hT : a.target? mem ⟨i.flagD, i.operandBD⟩ with
        | none =>
          rw [hT, ht] at hx
          cases hx
        | some y =>
          rw [hT] at hx
          simpa [Arch.next, hT] using hx.2 j

/-- STEP, a delay slot in ID with its branch in EX. -/
theorem Sim.slot_clk (hm : Program mem) (h : s.Sim mem a) (hl : (machine mem).legal s i)
    (hpc : s.idPc = a.pc) (hinsn : s.idInsn = mem a.pc) (htkn : s.exBranchTaken = true)
    (htgt : ∀ i, s.pc i = a.npc) (hplain : branchOp (mem a.pc) = .nop)
    (hport : s.saved = true → s.port = some a.npc) :
    (s.clk mem i).Stage mem
      (if s.advances i then a.next mem ⟨i.flagD, i.operandBD⟩ else a) := by
  have hn : s.noMoreDslot = true := by
    rw [noMoreDslot_eq h.exRfe, htkn, hinsn, hm.noVoid]
    rfl
  have hadr : s.icpuAdrO i = a.npc := by simp [icpuAdrO, hn, htgt]
  have hcyc : s.icpuCycstbO i = true := by
    simp [icpuCycstbO, h.idOp, hinsn, hplain]
  have hport' : i.icpuAckI = true ∨ s.saved = true → (s.clk mem i).port = some a.npc := by
    intro hk
    change s.portNext i = some a.npc
    simp only [portNext, hcyc, hadr]
    rcases hk with hk | hk
    · simp [hk]
    · simp [hport hk]
  rw [advances_of_insn hm hinsn]
  cases hf : s.freeze i with
  | true =>
    refine .slot ?_ ?_ ?_ ?_ hplain ?_
    · simpa [clk, hf] using hpc
    · simpa [clk, hf] using hinsn
    · rw [taken_freeze hf]
      exact htkn
    · intro j
      rw [pc_freeze hf htkn]
      exact htgt j
    · intro hs
      refine hport' ?_
      cases ha : i.icpuAckI <;> simp_all [clk, saveInsn]
  | false =>
    have hcome : i.icpuAckI = true ∨ s.saved = true := by
      have hu := h.noUnstall hl htkn
      simp only [freeze, ifStall, hu] at hf
      cases ha : i.icpuAckI <;> simp_all
    have hT : a.target? mem ⟨i.flagD, i.operandBD⟩ = none := by simp [Arch.target?, hplain]
    have hx := exec_target h.idOp (h.idRfe hm) hpc hinsn hf
    rw [hT] at hx
    have hpcreg : (s.clk mem i).pcreg = a.npc := by
      rw [pcreg_clk (h.bootAck hl), hn]
      exact htgt i
    refine .empty ?_ ?_ ?_ (.inl ⟨?_, ⟨hpcreg, hadr, .inr (hport' hcome)⟩⟩)
    · have hid : (s.clk mem i).idInsn = nopFlushed := by simp [clk, hf, ifInsn, hn]
      rw [hid]
      decide
    · intro _
      simp [Arch.next, hT]
    · rw [hx]
      intro hc
      cases hc
    · simp [clk, saveInsn, hf]

/-- STEP. -/
theorem Sim.clk (hm : Program mem) (h : s.Sim mem a) (hl : (machine mem).legal s i) :
    (s.clk mem i).Sim mem
      (if s.advances i then a.next mem ⟨i.flagD, i.operandBD⟩ else a) := by
  have hid := h.idRfe hm
  refine ⟨?_, ?_, ?_, ?_, ?_, ?_⟩
  · cases hf : s.freeze i <;> simp [Frontend.clk, hf, h.idOp]
  · cases hf : s.freeze i <;> simp [Frontend.clk, hf, h.idOp, h.exOp]
  · cases hf : s.freeze i <;> simp [Frontend.clk, hf, hid, h.exRfe]
  · intro hc
    cases hc
  · split
    · cases hT : a.target? mem ⟨i.flagD, i.operandBD⟩ with
      | none => exact .inl (by simp [Arch.next, hT])
      | some y => exact .inr (h.slot_plain hm hT)
    · exact h.regular
  · cases h.stage with
    | empty hvoid hseq htgt hup =>
      rw [show s.advances i = false by simp [advances, hvoid]]
      exact h.empty_clk hm hl hvoid hseq htgt hup
    | full hpc hinsn hseq hup => exact h.full_clk hm hl hpc hinsn hseq hup
    | slot hpc hinsn htkn htgt hplain hport =>
      exact h.slot_clk hm hl hpc hinsn htkn htgt hplain hport

/-- With no load or store in EX the pipeline only moves when it takes a word into ID. -/
theorem Sim.takes_word (hm : Program mem) (h : s.Sim mem a) (hl : (machine mem).legal s i)
    (hv : isVoid s.idInsn = true) (hex : isLsu s.exInsn = false) (hf : s.freeze i = false) :
    isVoid (s.clk mem i).idInsn = false := by
  cases h.stage with
  | empty hvoid hseq htgt hup =>
    have hn : s.noMoreDslot = false := by rw [noMoreDslot_eq h.exRfe, hvoid]; rfl
    obtain ⟨-, ⟨hins, -, -⟩ | ⟨hun, -, -⟩⟩ :=
      upcoming_move (h.bootAck hl) hn hl.1 hup (empty_pc hseq htgt hup) (h.noRfe hm) hf
    · rw [show (s.clk mem i).idInsn = mem a.pc by simpa [Frontend.clk, hf] using hins]
      exact hm.noVoid _
    · rw [hl.2 hun] at hex
      cases hex
  | full _ hinsn =>
    rw [hinsn, hm.noVoid] at hv
    cases hv
  | slot _ hinsn =>
    rw [hinsn, hm.noVoid] at hv
    cases hv

end Step

end Frontend

/-! ### Runs -/

section Run
open Frontend

variable {mem : Word → Insn} (R : (Frontend.machine mem).Run)

/-- The words, with their addresses, that have advanced from ID to EX before cycle `t`. -/
def delivered : ℕ → List (Word × Insn)
  | 0 => []
  | t + 1 =>
    if (R.state t).advances (R.input t) then
      delivered t ++ [((R.state t).idPc, (R.state t).idInsn)]
    else delivered t

/-- What they find in EX. -/
def outcomes : ℕ → List Outcome
  | 0 => []
  | t + 1 =>
    if (R.state t).advances (R.input t) then
      outcomes t ++ [⟨(R.state (t + 1)).flag, (R.state (t + 1)).operandB⟩]
    else outcomes t

/-- The port answers what it has accepted at some time, unless it is abandoned before. -/
def PortAnswers : Prop :=
  ∀ t, (R.state t).port ≠ none → ∃ u, t ≤ u ∧
    ((R.input u).icpuAckI = true ∨ (R.state u).icpuCycstbO (R.input u) = false)

/-- Load/store and MAC stalls end. -/
def StallsEnd : Prop :=
  ∀ t, ∃ u, t ≤ u ∧ (R.input u).lsuStall = false ∧ (R.input u).macStall = false

variable {R}

theorem state_next (t : ℕ) : R.state (t + 1) = (R.state t).clk mem (R.input t) := R.next t

theorem advance_outcome {t : ℕ} (h : (R.state t).advances (R.input t) = true) :
    (⟨(R.state (t + 1)).flag, (R.state (t + 1)).operandB⟩ : Outcome) =
      ⟨(R.input t).flagD, (R.input t).operandBD⟩ := by
  have hf : (R.state t).freeze (R.input t) = false := by
    simp only [advances, Bool.and_eq_true, Bool.not_eq_true'] at h
    exact h.1
  rw [state_next]
  simp [clk, hf]

/-- RUN: the front end simulates the architecture after the delivered instructions. -/
theorem sim_run (hm : Program mem) (t : ℕ) :
    (R.state t).Sim mem ((outcomes R t).foldl (Arch.next mem) Arch.boot) := by
  induction t with
  | zero =>
    rw [show R.state 0 = reset from R.start]
    refine ⟨rfl, rfl, by decide, fun _ => ⟨rfl, rfl⟩, .inl rfl, ?_⟩
    exact .empty rfl (fun _ => rfl) (fun h => by cases h) (.inl ⟨rfl, ⟨rfl, rfl, .inl rfl⟩⟩)
  | succ t ih =>
    have hstep := ih.clk hm (R.legal t)
    rw [← state_next] at hstep
    by_cases ha : (R.state t).advances (R.input t) = true
    · rw [if_pos ha] at hstep
      rw [outcomes, if_pos ha, List.foldl_concat, advance_outcome ha]
      exact hstep
    · rw [if_neg ha] at hstep
      rw [outcomes, if_neg ha]
      exact hstep

/-- SAFETY: the delivered instructions are the architectural stream. -/
theorem delivered_eq (hm : Program mem) (t : ℕ) :
    delivered R t = Arch.stream mem Arch.boot (outcomes R t) := by
  induction t with
  | zero => rfl
  | succ t ih =>
    by_cases ha : (R.state t).advances (R.input t) = true
    · rw [delivered, outcomes, if_pos ha, if_pos ha, Arch.stream_concat, ← ih]
      cases (sim_run (R := R) hm t).stage with
      | empty hvoid => simp [advances, hvoid] at ha
      | full hpc hinsn => rw [hpc, hinsn]
      | slot hpc hinsn => rw [hpc, hinsn]
    · rw [delivered, outcomes, if_neg ha, if_neg ha]
      exact ih

/-! ### Progress -/

/-- A frozen multicycle counter runs down to zero and stays there. -/
theorem multicycle_ends {t : ℕ} (hf : ∀ u, t ≤ u → (R.state u).freeze (R.input u) = true) :
    ∃ v, t ≤ v ∧ ∀ w, v ≤ w → (R.state w).multicycleCnt = 0 := by
  have hclk : ∀ u, t ≤ u → (R.state (u + 1)).multicycleCnt =
      if (R.state u).multicycleCnt ≠ 0 then (R.state u).multicycleCnt - 1 else 0 := by
    intro u hu
    rw [state_next]
    simp only [clk, hf u hu]
    split_ifs <;> simp_all
  have hzero : ∀ v, t ≤ v → (R.state v).multicycleCnt = 0 →
      ∀ w, v ≤ w → (R.state w).multicycleCnt = 0 := by
    intro v hv h0 w hw
    induction w, hw using Nat.le_induction with
    | base => exact h0
    | succ w hw ih => simp [hclk w (by omega), ih]
  by_cases h0 : (R.state t).multicycleCnt = 0
  · exact ⟨t, le_rfl, hzero t le_rfl h0⟩
  · obtain ⟨v, hv, hq, -⟩ := phase_ends (fun u => (R.state u).multicycleCnt.toNat)
      (P := fun u => t ≤ u ∧ (R.state u).multicycleCnt ≠ 0)
      (Q := fun u => (R.state u).multicycleCnt = 0) (fun u ⟨hu, hne⟩ => by
        by_cases hq : (R.state (u + 1)).multicycleCnt = 0
        · exact .inl hq
        · refine .inr ⟨⟨by omega, hq⟩, ?_⟩
          rw [hclk u hu, if_pos hne]
          exact toNat_sub_one_lt hne) ⟨le_rfl, h0⟩
    exact ⟨v, hv.le, hzero v hv.le hq⟩

/-- The pipeline moves again and again. -/
theorem moves (hpo : PortAnswers R) (hst : StallsEnd R) (t : ℕ) :
    ∃ u, t ≤ u ∧ (R.state u).freeze (R.input u) = false := by
  by_contra hn
  push Not at hn
  have hf : ∀ u, t ≤ u → (R.state u).freeze (R.input u) = true := by
    intro u hu
    simpa using hn u hu
  obtain ⟨v, hv, hcnt⟩ := multicycle_ends hf
  -- a saved word waits for the end of the stall only
  have hsaved : ∀ w, v ≤ w → (R.state w).saved = false := by
    intro w hw
    by_contra hs
    have hkeep : ∀ u, w ≤ u → (R.state u).saved = true := by
      intro u hu
      induction u, hu using Nat.le_induction with
      | base => simpa using hs
      | succ u hu ih =>
        rw [state_next]
        simp [clk, saveInsn, hf u (by omega), ih]
    obtain ⟨u, hu, hl, hmac⟩ := hst w
    have hfu := hf u (by omega)
    simp [freeze, ifStall, hkeep u hu, hl, hmac, hcnt u (by omega)] at hfu
  have hack : ∀ w, v ≤ w → (R.input w).icpuAckI = false := by
    intro w hw
    by_contra ha
    have hs := hsaved (w + 1) (by omega)
    rw [state_next] at hs
    simp [clk, saveInsn, hf w (by omega), hsaved w hw] at hs
    exact ha (by simpa using hs)
  have hport : (R.state (v + 1)).port ≠ none := by
    rw [state_next]
    change (R.state v).portNext (R.input v) ≠ none
    cases hp : (R.state v).port <;> simp [portNext, icpuCycstbO, hack v le_rfl, hp]
  obtain ⟨u, hu, ha | hc⟩ := hpo (v + 1) hport
  · rw [hack u (by omega)] at ha
    cases ha
  · simp [icpuCycstbO, hack u (by omega)] at hc

/-- The next cycle in which the pipeline moves finds ID and EX unchanged. -/
theorem next_move (hpo : PortAnswers R) (hst : StallsEnd R) (t : ℕ) :
    ∃ u, t ≤ u ∧ (R.state u).freeze (R.input u) = false ∧
      (R.state u).idInsn = (R.state t).idInsn ∧ (R.state u).exInsn = (R.state t).exInsn := by
  obtain ⟨u, htu, hf, hfirst⟩ := first_time (moves hpo hst t)
  have hsame : ∀ v, t ≤ v → v ≤ u →
      (R.state v).idInsn = (R.state t).idInsn ∧ (R.state v).exInsn = (R.state t).exInsn := by
    intro v hv
    induction v, hv using Nat.le_induction with
    | base => exact fun _ => ⟨rfl, rfl⟩
    | succ v hv ih =>
      intro hlt
      have hfv : (R.state v).freeze (R.input v) = true := by
        simpa using hfirst v hv (by omega)
      obtain ⟨h1, h2⟩ := ih (by omega)
      rw [state_next]
      simp [clk, hfv, h1, h2]
  exact ⟨u, htu, hf, hsame u htu le_rfl⟩

/-- An instruction advances again and again. -/
theorem advances_again (hm : Program mem) (hpo : PortAnswers R) (hst : StallsEnd R) (t : ℕ) :
    ∃ u, t ≤ u ∧ (R.state u).advances (R.input u) = true := by
  -- a bubble in ID goes to EX, then a word comes into ID, then it advances
  obtain ⟨u, htu, hfu, -, -⟩ := next_move hpo hst t
  by_cases hvu : isVoid (R.state u).idInsn = true
  swap
  · exact ⟨u, htu, by simp [advances, hfu, hvu]⟩
  obtain ⟨v, huv, hfv, -, hexv⟩ := next_move hpo hst (u + 1)
  by_cases hvv : isVoid (R.state v).idInsn = true
  swap
  · exact ⟨v, by omega, by simp [advances, hfv, hvv]⟩
  have hlsu : isLsu (R.state v).exInsn = false := by
    rw [hexv, state_next]
    simp only [clk, hfu]
    exact isLsu_of_isVoid hvu
  have hword := (sim_run (R := R) hm v).takes_word hm (R.legal v) hvv hlsu hfv
  rw [← state_next] at hword
  obtain ⟨w, hvw, hfw, hidw, -⟩ := next_move hpo hst (v + 1)
  exact ⟨w, by omega, by simp [advances, hfw, hidw, hword]⟩

theorem delivered_length_mono {t u : ℕ} (h : t ≤ u) :
    (delivered R t).length ≤ (delivered R u).length := by
  induction u, h using Nat.le_induction with
  | base => exact le_rfl
  | succ u h ih =>
    refine ih.trans ?_
    rw [delivered]
    split_ifs <;> simp

/-- PROGRESS: any number of instructions is delivered. -/
theorem delivered_unbounded (hm : Program mem) (hpo : PortAnswers R) (hst : StallsEnd R) (n : ℕ) :
    ∃ t, n ≤ (delivered R t).length := by
  induction n with
  | zero => exact ⟨0, Nat.zero_le _⟩
  | succ n ih =>
    obtain ⟨t, ht⟩ := ih
    obtain ⟨u, htu, ha⟩ := advances_again hm hpo hst t
    refine ⟨u + 1, ?_⟩
    have hle := delivered_length_mono (R := R) htu
    rw [delivered, if_pos ha, List.length_append, List.length_singleton]
    omega

variable (R)

/-- In every run over a program the instructions that advance from ID to EX are, with their
    addresses, the architectural stream from the boot address on; and if the port answers and the
    stalls end, the whole stream is delivered. -/
theorem delivers_stream (hm : Program mem) :
    (∀ t, delivered R t = Arch.stream mem Arch.boot (outcomes R t)) ∧
    (PortAnswers R → StallsEnd R → ∀ n, ∃ t, n ≤ (delivered R t).length) :=
  ⟨delivered_eq hm, delivered_unbounded hm⟩

end Run

/-! ### Two runs -/

/-- The pins of a run without stalls, with acknowledges in the cycles `acks`. -/
def ackInput (acks : List ℕ) (t : ℕ) : FrontendIn where
  icpuAckI := decide (t ∈ acks)
  lsuStall := false
  lsuUnstall := false
  macStall := false
  multicycle := 0
  flagD := false
  operandBD := 0
  epcr := 0

/-- A jump by eight words at the boot address, a delay slot, and `l.nop` everywhere else. -/
def jumpMem (slot : Insn) (a : Word) : Insn :=
  if a = bootAdr then 0x00000008 else if a = bootAdr + 1 then slot else 0x15000000

theorem ackInput_legal {slot : Insn} {acks : List ℕ}
    (h : ∀ t ∈ acks, ((Frontend.machine (jumpMem slot)).trace .reset (ackInput acks) t).port ≠ none)
    (t : ℕ) : (Frontend.machine (jumpMem slot)).legal
      ((Frontend.machine (jumpMem slot)).trace .reset (ackInput acks) t) (ackInput acks t) :=
  ⟨fun ha => h t (of_decide_eq_true ha), fun hu => by cases hu⟩

theorem jumpMem_branch {slot : Insn} (hs : branchOp slot = .nop) {a : Word}
    (h : branchOp (jumpMem slot a) ≠ .nop) : a = bootAdr := by
  by_contra hne
  refine h ?_
  rw [jumpMem, if_neg hne]
  split_ifs
  · exact hs
  · decide

theorem jumpMem_slots {slot : Insn} (hs : branchOp slot = .nop) (a : Word)
    (h : branchOp (jumpMem slot a) ≠ .nop) : branchOp (jumpMem slot (a + 1)) = .nop := by
  rw [jumpMem_branch hs h]
  exact hs

theorem jumpMem_noRfe {slot : Insn} (hs : branchOp slot = .nop) (a : Word) :
    branchOp (jumpMem slot a) ≠ .rfe := by
  intro h
  have ha := jumpMem_branch (a := a) hs (by rw [h]; decide)
  rw [ha, jumpMem, if_pos rfl] at h
  revert h
  decide

theorem jumpMem_program : Program (jumpMem 0x15000000) where
  noRfe := jumpMem_noRfe rfl
  slots := jumpMem_slots rfl
  noVoid a := by
    unfold jumpMem
    split_ifs <;> decide

theorem jumpRun_legal : ∀ t ∈ [1, 2, 4, 5, 6], ((Frontend.machine (jumpMem 0x15000000)).trace .reset
    (ackInput [1, 2, 4, 5, 6]) t).port ≠ none := by
  decide

/-- The run of a jump whose delay slot is an `l.nop`. -/
def jumpRun : (Frontend.machine (jumpMem 0x15000000)).Run :=
  .ofInput .reset (ackInput [1, 2, 4, 5, 6]) rfl (ackInput_legal jumpRun_legal)

theorem delivers_stream_jump :
    delivered jumpRun 7 = [(0x40, 0x00000008), (0x41, 0x15000000), (0x48, 0x15000000)] ∧
    delivered jumpRun 7 = Arch.stream (jumpMem 0x15000000) Arch.boot (outcomes jumpRun 7) :=
  ⟨by decide, (delivers_stream jumpRun jumpMem_program).1 7⟩

theorem bubbleRun_legal : ∀ t ∈ [1, 2, 4, 5], ((Frontend.machine (jumpMem 0x14410000)).trace .reset
    (ackInput [1, 2, 4, 5]) t).port ≠ none := by
  decide

/-- With a word that looks like a bubble in the delay slot the jump waits for one more word, which
    is executed on the way to the target. -/
theorem bubble_slot_diverts : ∃ mem : Word → Insn, (∀ a, branchOp (mem a) ≠ .rfe) ∧
    (∀ a, branchOp (mem a) ≠ .nop → branchOp (mem (a + 1)) = .nop) ∧
    ∃ R : (Frontend.machine mem).Run,
      delivered R 6 = [(0x40, 0x00000008), (0x42, 0x15000000)] ∧
      ∀ os, delivered R 6 ≠ Arch.stream mem Arch.boot os ∧
        delivered R 6 ≠ (Arch.stream mem Arch.boot os).filter fun x => !isVoid x.2 := by
  refine ⟨jumpMem 0x14410000, jumpMem_noRfe rfl, jumpMem_slots rfl,
    .ofInput .reset (ackInput [1, 2, 4, 5]) rfl (ackInput_legal bubbleRun_legal), ?_⟩
  have hd : delivered (.ofInput (M := Frontend.machine (jumpMem 0x14410000)) .reset
      (ackInput [1, 2, 4, 5]) rfl (ackInput_legal bubbleRun_legal)) 6 =
      [(0x40, 0x00000008), (0x42, 0x15000000)] := by decide
  refine ⟨hd, fun os => ?_⟩
  rw [hd]
  have h1 : ∀ o, Arch.boot.next (jumpMem 0x14410000) o = ⟨0x41, 0x48⟩ := fun _ => rfl
  have h2 : ∀ o, (⟨0x41, 0x48⟩ : Arch).next (jumpMem 0x14410000) o = ⟨0x48, 0x49⟩ := fun _ => rfl
  rcases os with _ | ⟨o1, _ | ⟨o2, _ | ⟨o3, os⟩⟩⟩
  · decide
  · simp only [Arch.stream]
    decide
  · simp only [Arch.stream, h1]
    decide
  · -- the third word of the architecture is at the target
    simp only [Arch.stream, h1, h2]
    refine ⟨fun h => ?_, fun h => ?_⟩
    · have := congrArg (fun l => l[1]?) h
      revert this
      simp
    · have := congrArg (fun l => l[1]?) h
      revert this
      simp [isVoid, opcode, jumpMem, bootAdr, Arch.boot]

end DsdOrsoc.Or1200
