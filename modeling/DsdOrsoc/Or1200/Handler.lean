import DsdOrsoc.Or1200.Core

/-! The way into a handler and back. From the cycle of recognition to the first word of the handler
    the core goes through these PHASES, in all of which EX holds a bubble:

        flushing   the old fetch is drained, then the vector is presented without being asked for
        waiting    the vector is asked for, or its word is in the save buffer
        arriving   the word is in ID ──▶ EX
        failed     the fetch of the vector has failed, its flags are in ID ──▶ EX

    The status register goes to ESR as the instruction in EX leaves it in the cycle of recognition,
    and l.rfe loads it back. -/

namespace DsdOrsoc.Or1200
open Schemes

namespace Core

variable {s : Core} {i : CoreIn}

/-- `to_sr`: the status register after the instruction in EX. -/
def toSr (s : Core) (i : CoreIn) : Sr :=
  Or1200.toSr (s.sr i) s.priv.except.esr (s.priv.srIn (s.pins i))

/-- `esr_we` and `epcr_we`. -/
def esrWe (s : Core) (i : CoreIn) : Bool := s.priv.sysWe (s.pins i) 64

def epcrWe (s : Core) (i : CoreIn) : Bool := s.priv.sysWe (s.pins i) 32

theorem Inv.idle_of_rfe (h : Inv s) (hr : s.priv.exBranchOp = .rfe) :
    s.priv.except.state = .idle := by
  by_contra hst
  cases hr.symm.trans (h.priv.exBranchOp_of_void (h.busy hst).1)

theorem Inv.not_exceptStart (h : Inv s) (hidle : s.priv.except.state = .idle) :
    s.exceptStart = false := Privilege.not_started h.priv hidle

/-- l.rfe presents the saved address. -/
theorem Inv.icpuAdrO_rfe (h : Inv s) (hr : s.priv.exBranchOp = .rfe) :
    s.icpuAdrO i = (wordOf s.priv.except.epcr, true) := by
  have hst := h.not_exceptStart (h.idle_of_rfe hr)
  simp [icpuAdrO, noMoreDslot, pc, branchPc, exBranchTaken, hr, hst]

/-! ### Bubbles in EX -/

/-- Nothing is written and nothing is asked of the data port. -/
structure Quiet (s : Core) (i : CoreIn) : Prop where
  rf : s.priv.ops.rfWe (s.stage i) = false
  spr : s.priv.sprWe (s.pins i) = false
  flag : s.flagWe = false
  carry : s.cyWe i = false
  mac : s.exMacOp = macopNop
  data : s.lsu.dcpuCycstb false i.dcpuAck = false

theorem Inv.quiet (h : Inv s) (hv : isVoid s.priv.exInsn = true) : s.Quiet i := by
  have hop := opcode_of_isVoid hv
  have halu : s.aluOp = aluopNop := by simp [h.aluOp, Or1200.aluOp, hop]
  have hspr : s.priv.sprWe (s.pins i) = false := h.priv.sprWe_of_void pins_legal hv
  have hrf : s.priv.ops.exRfwbOp.we = false := by rw [h.rfwbOp, Or1200.rfwbOp, hop]; decide
  have hlsu : s.lsu.exLsuOp = .nop := by rw [h.lsuOp, Or1200.lsuOp, hop]; rfl
  refine ⟨?_, hspr, ?_, ?_, ?_, ?_⟩
  · have hspr' : s.priv.ops.sprWe (s.stage i) = false := hspr
    simp [Operands.rfWe, hspr', hrf]
  · simp [flagWe, halu, aluFlagWe, aluopNop]
  · simp [cyWe, halu, aluCyWe, aluopNop]
  · simp [h.macOp, Or1200.macOp, hop]
  · simp [Lsu.dcpuCycstb, hlsu]

/-! ### The phases -/

variable {vec : Word} {got got' : Insn → Prop}

/-- The flush is held; `vec` is the vector. -/
structure Flushing (vec : Word) (s : Core) : Prop where
  flush : s.priv.except.extendFlush = true
  select : s.priv.srReg.bitEphSelect = false
  vector : vector s.priv.srReg.bitEph s.priv.except.exceptType = vec

/-- The handler is fetched; `got` are the words that the port has delivered for `vec`. -/
structure Waiting (vec : Word) (got : Insn → Prop) (s : Core) : Prop where
  flush : s.priv.except.extendFlush = false
  ex : isVoid s.priv.exInsn = true
  id : isVoid s.priv.ops.idInsn = true
  fetch : s.saved = false → s.icpuAdr = vec ∧ (s.port = none ∨ s.port = some vec)
  buffer : s.saved = true → s.addrSaved = vec ∧
    (got s.insnSaved ∨ s.errSaved.failed = true ∧ isVoid s.insnSaved = true)

/-- The first word of the handler is in ID. -/
structure Arriving (vec : Word) (got : Insn → Prop) (s : Core) : Prop where
  flush : s.priv.except.extendFlush = false
  ex : isVoid s.priv.exInsn = true
  id : got s.priv.ops.idInsn
  idPc : s.priv.except.idPc = byteAdr vec

/-- The failed fetch of the handler is in ID. -/
structure Failed (s : Core) : Prop where
  idle : s.priv.except.state = .idle
  ex : isVoid s.priv.exInsn = true
  id : isVoid s.priv.ops.idInsn = true
  flags : s.priv.except.idExceptflags.failed = true

inductive Phase (vec : Word) (got : Insn → Prop) (s : Core) : Prop
  | flushing (h : s.Flushing vec)
  | waiting (h : s.Waiting vec got)
  | arriving (h : s.Arriving vec got)
  | failed (h : s.Failed)
  | refused (hst : s.priv.except.state = .idle) (hex : isVoid s.priv.exInsn = true)
      (hfl : s.priv.except.exExceptflags.failed = true)

theorem Phase.void (h : Phase vec got s) (hs : Inv s) : isVoid s.priv.exInsn = true := by
  cases h with
  | flushing h =>
    have hx := h.flush
    rw [hs.extendFlush_eq, decide_eq_true_eq] at hx
    exact (hs.busy hx.1).1
  | waiting h => exact h.ex
  | arriving h => exact h.ex
  | failed h => exact h.ex
  | refused _ hex => exact hex

theorem Flushing.eph (h : Flushing vec s) : s.eph i = s.priv.srReg.bitEph := by
  rw [Core.eph, sr, getLsbD_sr, if_pos rfl, h.select]
  rfl

/-- The type of an exception stays while the flush is held. -/
theorem Inv.exceptType_clk (h : Inv s) (he : s.priv.except.extendFlush = true)
    (he' : (s.clk i).priv.except.extendFlush = true) :
    (s.clk i).priv.except.exceptType = s.priv.except.exceptType := by
  rw [h.extendFlush_clk, decide_eq_true_eq] at he'
  rw [h.extendFlush_eq, decide_eq_true_eq] at he
  cases transition (s := s) (i := i) with
  | drain _ _ _ ty => exact ty
  | drained _ _ _ ty => exact ty
  | third _ _ ty => exact ty
  | fourth _ _ ty => exact ty
  | recognise _ _ old => exact absurd old he.1
  | rest _ old => exact absurd old he.1
  | trap _ new => exact absurd new he'.1
  | fifth _ new => exact absurd new he'.2
  | wait _ old => exact absurd old he.2
  | done _ old => exact absurd old he.2

/-- The flush ends after the old fetch has been drained. -/
theorem Inv.drained_of_end (h : Inv s) (he : s.priv.except.extendFlush = true)
    (he' : (s.clk i).priv.except.extendFlush = false) : s.Drained := by
  rw [h.extendFlush_clk, decide_eq_false_iff_not] at he'
  rw [h.extendFlush_eq, decide_eq_true_eq] at he
  cases transition (s := s) (i := i) with
  | trap old => exact .inl old
  | third old => exact .inl old
  | fourth old => exact .inr (.inl old)
  | fifth old => exact .inr (.inr old)
  | drain _ _ new => simp [new] at he'
  | drained _ _ new => simp [new] at he'
  | recognise _ _ old => exact absurd old he.1
  | rest _ old => exact absurd old he.1
  | wait _ old => exact absurd old he.2
  | done _ old => exact absurd old he.2

/-- STEP: the flush goes on, or the handler is fetched. -/
theorem Flushing.clk (h : Flushing vec s) (hs : Inv s) : Phase vec got (s.clk i) := by
  have hst := hs.exceptStart_of_extendFlush h.flush
  have hf : s.flushpipe i = true := by rw [flushpipe_eq, h.flush, Bool.or_true]
  have hadr : (s.icpuAdrO i).1 = vec := by
    rw [icpuAdrO_of_exceptStart hst, h.eph]
    exact h.vector
  cases hext : (s.clk i).priv.except.extendFlush with
  | true =>
    refine .flushing ⟨hext, rfl, ?_⟩
    rw [hs.exceptType_clk h.flush hext, ← h.vector]
    exact congrArg₂ _ (clk_bitEph_started h.select hst) rfl
  | false =>
    have hfl := flushed_clk hf
    have hport := portNext_of_frozen (i := i) (hs.drained (hs.drained_of_end h.flush hext)).1
    refine .waiting ⟨hext, hfl.void.1, hfl.void.2, fun _ => ⟨hadr, .inl hport⟩, fun hsv => ?_⟩
    cases hfl.saved.symm.trans hsv

/-- Without an exception an idle unit stays idle. -/
theorem Inv.idle_clk (h : Inv s) (hr : s.recognised i = none)
    (hidle : s.priv.except.state = .idle) : (s.clk i).priv.except.state = .idle := by
  by_contra hst
  have hf := flushpipe_false hr (by simp [h.extendFlush_eq, hidle])
  exact h.busy_of_clk hf hst hidle

section Step
variable (hs : Inv s) (hl : Legal s i) (hr : s.recognised i = none)

include hs in
theorem Waiting.noMoreDslot (h : Waiting vec got s) : s.noMoreDslot = false := by
  simp [Core.noMoreDslot, hs.priv.exBranchOp_of_void h.ex]

include hs hr in
/-- What is in IF comes from the buffer or from the port. -/
theorem Waiting.ifInsn_eq (h : Waiting vec got s) : s.ifInsn i =
    if s.saved then s.insnSaved else if i.icpuAck then i.icpuDat else nopMissing := by
  have hid : s.priv.idBranchOp = .nop := by rw [hs.priv.idBranch, branchOp_of_isVoid h.id]
  exact hs.ifInsn_eq (flushpipe_false hr h.flush) (h.noMoreDslot hs) (by simp [hid])

include hs in
theorem Waiting.ifFlags_eq (h : Waiting vec got s) :
    s.ifFlags i = if s.saved then s.errSaved else i.fetchErr := by
  simp [ifFlags, h.noMoreDslot hs]

include hs in
/-- Nothing has come yet: the same address is asked for again. -/
theorem Waiting.fetch_clk (h : Waiting vec got s) (hsv : s.saved = false)
    (ha : i.icpuAck = false) (he : i.icpuErr = false) : (s.clk i).icpuAdr = vec ∧
      ((s.clk i).port = none ∨ (s.clk i).port = some vec) := by
  have hadr : (s.icpuAdrO i).1 = vec := by
    rw [icpuAdrO_kept (h.noMoreDslot hs) (not_exceptStart h.flush)
      (by simp [CoreIn.icpuRty, ha, he])]
    exact (h.fetch hsv).1
  refine ⟨hadr, ?_⟩
  rcases portNext_cases (s := s) (i := i) with hp | hp | ⟨hp, -⟩
  · exact .inl hp
  · exact .inr (hp.trans (congrArg some hadr))
  · exact (h.fetch hsv).2.imp hp.trans hp.trans

variable (hgot : i.icpuAck = true → s.port = some vec → got' i.icpuDat)
  (hmono : ∀ w, got w → got' w)
include hs hl hr

include hgot hmono in
/-- A frozen pipeline goes on waiting, with the answer of the port in the buffer. -/
theorem Waiting.held (h : Waiting vec got s) (hz : s.idFreeze i = true)
    (hd : Held s (s.clk i)) : (s.clk i).Waiting vec got' := by
  have hf := flushpipe_false hr h.flush
  have hsv' := clk_saved hf
  rw [hz, Bool.true_and] at hsv'
  refine ⟨hs.clk_extendFlush hf, ?_, ?_, fun hsv => ?_, fun hsv => ?_⟩
  · rw [hd.exInsn]; exact h.ex
  · rw [hd.idInsn]; exact h.id
  · rw [hsv', Bool.or_eq_false_iff, Bool.or_eq_false_iff] at hsv
    exact h.fetch_clk hs hsv.1.1 hsv.1.2 hsv.2
  · cases hold : s.saved with
    | true =>
      obtain ⟨hi, ha, he⟩ := clk_buffer_kept hf hz hold
      rw [hi, ha, he]
      exact ⟨(h.buffer hold).1, (h.buffer hold).2.imp_left (hmono _)⟩
    | false =>
      rw [hsv', hold, Bool.false_or] at hsv
      obtain ⟨hi, ha, he⟩ := clk_buffer_filled hf hz hold hsv
      rw [hi, ha, he, CoreIn.failed_fetchErr]
      refine ⟨(h.fetch hold).1, ?_⟩
      cases hie : i.icpuErr with
      | true => exact .inr ⟨rfl, isVoid_nopFlushed⟩
      | false =>
        rw [hie, Bool.or_false] at hsv
        exact .inl (hgot hsv ((h.fetch hold).2.resolve_left (hl.fetch (by simp [hsv]))))

include hgot hmono in
/-- When the pipeline moves, what has come goes to ID. -/
theorem Waiting.moved (h : Waiting vec got s) (hz : s.idFreeze i = false)
    (hm : Moved s i (s.clk i)) : Phase vec got' (s.clk i) := by
  have hf := flushpipe_false hr h.flush
  have hext := hs.clk_extendFlush hf
  have hex : isVoid (s.clk i).priv.exInsn = true := by rw [hm.exInsn]; exact h.id
  have hidle (hst : s.ifStall i = false) : (s.clk i).priv.except.state = .idle := by
    by_contra hc
    rcases (hs.flu5_of_clk hf hc).2 with hw | hw
    · cases hst.symm.trans hw
    · cases hz.symm.trans hw
  have hid := hm.idInsn.trans (h.ifInsn_eq hs hr)
  have hfl := hm.idFlags.trans (h.ifFlags_eq hs)
  have hpc := hm.idPc
  cases hold : s.saved with
  | true =>
    obtain ⟨hadr, hin⟩ := h.buffer hold
    rw [hold, if_pos rfl] at hid hfl
    rw [ifPc, hold, if_pos rfl, hadr] at hpc
    rcases hin with hw | ⟨hfa, hv⟩
    · exact .arriving ⟨hext, hex, by rw [hid]; exact hmono _ hw, hpc⟩
    · exact .failed ⟨hidle (by simp [ifStall, hold]), hex, by rw [hid]; exact hv, by
        rw [hfl]; exact hfa⟩
  | false =>
    obtain ⟨hadr, hport⟩ := h.fetch hold
    rw [hold, if_neg Bool.false_ne_true] at hid hfl
    rw [ifPc, hold, if_neg Bool.false_ne_true, hadr] at hpc
    cases ha : i.icpuAck with
    | true =>
      rw [ha, if_pos rfl] at hid
      refine .arriving ⟨hext, hex, ?_, hpc⟩
      rw [hid]
      exact hgot ha (hport.resolve_left (hl.fetch (by simp [ha])))
    | false =>
      rw [ha, if_neg Bool.false_ne_true] at hid
      have hv : isVoid (s.clk i).priv.ops.idInsn = true := by rw [hid]; decide
      cases he : i.icpuErr with
      | true =>
        refine .failed ⟨hidle (by simp [ifStall, he]), hex, hv, ?_⟩
        rw [hfl, CoreIn.failed_fetchErr, he]
      | false =>
        refine .waiting ⟨hext, hex, hv, fun _ => h.fetch_clk hs hold ha he, fun hsv => ?_⟩
        rw [clk_saved hf, hz] at hsv
        cases hsv

include hgot hmono in
/-- STEP: the handler is fetched until its first word, or the failure of the fetch, is in ID. -/
theorem Waiting.clk (h : Waiting vec got s) : Phase vec got' (s.clk i) := by
  cases hs.edge hl with
  | flushed hf => cases (flushpipe_false hr h.flush).symm.trans hf
  | held _ hz hd => exact .waiting (h.held hs hl hr hgot hmono hz hd)
  | moved _ hz hm => exact h.moved hs hl hr hgot hmono hz hm

include hmono in
/-- STEP: the first word of the handler goes on to EX. -/
theorem Arriving.clk (h : Arriving vec got s) : (s.clk i).Arriving vec got' ∨
    got' (s.clk i).priv.exInsn ∧ (s.clk i).priv.except.exPc = byteAdr vec := by
  have hf := flushpipe_false hr h.flush
  cases hs.edge hl with
  | flushed hf' => cases hf.symm.trans hf'
  | held _ _ hd =>
    refine .inl ⟨hs.clk_extendFlush hf, ?_, ?_, ?_⟩
    · rw [hd.exInsn]; exact h.ex
    · rw [hd.idInsn]; exact hmono _ h.id
    · rw [hd.idPc]; exact h.idPc
  | moved _ _ hm => exact .inr ⟨by rw [hm.exInsn]; exact hmono _ h.id, hm.exPc.trans h.idPc⟩

/-- STEP: the failure of the fetch goes on to EX. -/
theorem Failed.clk (h : Failed s) : Phase vec got (s.clk i) := by
  have hf := flushpipe_false hr (by simp [hs.extendFlush_eq, h.idle])
  have hidle := hs.idle_clk hr h.idle
  cases hs.edge hl with
  | flushed hf' => cases hf.symm.trans hf'
  | held _ _ hd =>
    refine .failed ⟨hidle, ?_, ?_, ?_⟩
    · rw [hd.exInsn]; exact h.ex
    · rw [hd.idInsn]; exact h.id
    · rw [hd.idFlags]; exact h.flags
  | moved _ _ hm =>
    refine .refused hidle ?_ ?_
    · rw [hm.exInsn]; exact h.id
    · rw [hm.exFlags]; exact h.flags

include hgot hmono in
/-- STEP: until an exception is recognised, the phases go on, or the first word of the handler
    enters EX. -/
theorem Phase.clk (h : Phase vec got s) : Phase vec got' (s.clk i) ∨
    got' (s.clk i).priv.exInsn ∧ (s.clk i).priv.except.exPc = byteAdr vec := by
  cases h with
  | flushing h => exact .inl (h.clk hs)
  | waiting h => exact .inl (h.clk hs hl hr hgot hmono)
  | arriving h => exact (h.clk hs hl hr hmono).imp_left .arriving
  | failed h => exact .inl (h.clk hs hl hr)
  | refused hst _ hfl =>
    have hrec : (s.recognised i).isSome = true := Except.recognised_of_failed hst hfl
    rw [hr] at hrec
    cases hrec

end Step

/-! ### Entry -/

variable {R : machine.Run} {t : ℕ} {c : Cause}

/-- Between cycle `t` and cycle `u` the port has answered the address `x` with the word `w`. -/
def Delivered (R : machine.Run) (t u : ℕ) (x : Word) (w : Insn) : Prop :=
  ∃ k, t < k ∧ k < u ∧ (R.input k).icpuAck = true ∧ (R.state k).port = some x ∧
    (R.input k).icpuDat = w

theorem Delivered.mono {u u' : ℕ} {x : Word} {w : Insn} (h : Delivered R t u x w) (hu : u ≤ u') :
    Delivered R t u' x w := by
  obtain ⟨k, htk, hku, hk⟩ := h
  exact ⟨k, htk, by omega, hk⟩

/-- The vector of an exception that is recognised in cycle `t`. -/
def vectorOf (R : machine.Run) (t : ℕ) (c : Cause) : Word :=
  vector ((R.state (t + 1)).eph (R.input (t + 1))) c.exceptType

/-- The flush begins when an exception is recognised. -/
theorem flushing_of_recognised (hc : (R.state t).recognised (R.input t) = some c) :
    (R.state (t + 1)).Flushing (vectorOf R t c) := by
  have hrec := Except.clk_recognised hc
  have hsel : (R.state (t + 1)).priv.srReg.bitEphSelect = false := by rw [run_succ]; rfl
  have hst : (R.state (t + 1)).priv.except.state = .flu1 := by rw [run_succ]; exact hrec.1
  have hty : (R.state (t + 1)).priv.except.exceptType = c.exceptType := by
    rw [run_succ]; exact hrec.2.1
  refine ⟨?_, hsel, ?_⟩
  · rw [(inv_of_reachable (R.reachable (t + 1))).extendFlush_eq, hst]
    decide
  · rw [hty, vectorOf, Core.eph, sr, getLsbD_sr, if_pos rfl, hsel]
    rfl

/-- RUN: the phases go on until the first word of the handler is in EX. -/
theorem phase_run (hc : (R.state t).recognised (R.input t) = some c) {u : ℕ} (htu : t + 1 ≤ u)
    (hno : ∀ m, t < m → m < u → (R.state m).recognised (R.input m) = none) :
    (∀ m, t < m → m ≤ u →
      Phase (vectorOf R t c) (Delivered R t m (vectorOf R t c)) (R.state m)) ∨
    ∃ w, t < w ∧ w ≤ u ∧
      (∀ m, t < m → m < w →
        Phase (vectorOf R t c) (Delivered R t m (vectorOf R t c)) (R.state m)) ∧
      Delivered R t w (vectorOf R t c) (R.state w).priv.exInsn ∧
      (R.state w).priv.except.exPc = byteAdr (vectorOf R t c) := by
  induction u, htu using Nat.le_induction with
  | base =>
    refine .inl fun m h1 h2 => ?_
    obtain rfl : m = t + 1 := by omega
    exact .flushing (flushing_of_recognised hc)
  | succ u hu ih =>
    rcases ih fun m h1 h2 => hno m h1 (by omega) with hp | ⟨w, h1, h2, h3⟩
    · have hstep : Phase (vectorOf R t c) (Delivered R t (u + 1) (vectorOf R t c))
          ((R.state u).clk (R.input u)) ∨ _ :=
        (hp u hu le_rfl).clk (inv_of_reachable (R.reachable u)) (R.legal u) (hno u hu (by omega))
          (fun ha hport => ⟨u, hu, by omega, ha, hport, rfl⟩) fun w hw => hw.mono (by omega)
      rw [← run_succ] at hstep
      rcases hstep with hph | hdone
      · refine .inl fun m h1 h2 => ?_
        rcases Nat.lt_or_ge m (u + 1) with hlt | hge
        · exact hp m h1 (by omega)
        · obtain rfl : m = u + 1 := by omega
          exact hph
      · exact .inr ⟨u + 1, by omega, le_rfl, fun m h1 h2 => hp m h1 (by omega), hdone⟩
    · exact .inr ⟨w, h1, by omega, h3⟩

/-- An exception is a clean cut. After its recognition in cycle `t`, as long as no other exception
    is recognised, nothing is written and nothing is asked of the data port until the first word of
    the handler enters EX, and only bubbles are in EX before it. That word is one that the port has
    answered, after the recognition, to the vector of the exception, and the vector is its
    address. -/
theorem clean_cut (hc : (R.state t).recognised (R.input t) = some c) {u : ℕ} (htu : t < u)
    (hno : ∀ m, t < m → m < u → (R.state m).recognised (R.input m) = none) :
    (∀ m, t < m → m ≤ u →
      isVoid (R.state m).priv.exInsn = true ∧ (R.state m).Quiet (R.input m)) ∨
    ∃ w, t < w ∧ w ≤ u ∧
      (∀ m, t < m → m < w →
        isVoid (R.state m).priv.exInsn = true ∧ (R.state m).Quiet (R.input m)) ∧
      Delivered R t w (vectorOf R t c) (R.state w).priv.exInsn ∧
      (R.state w).priv.except.exPc = byteAdr (vectorOf R t c) := by
  have hquiet {m : ℕ} {got : Insn → Prop} (h : Phase (vectorOf R t c) got (R.state m)) :
      isVoid (R.state m).priv.exInsn = true ∧ (R.state m).Quiet (R.input m) := by
    have hs := inv_of_reachable (R.reachable m)
    exact ⟨h.void hs, hs.quiet (h.void hs)⟩
  rcases phase_run hc htu hno with hp | ⟨w, h1, h2, hp, hw⟩
  · exact .inl fun m h1 h2 => hquiet (hp m h1 h2)
  · exact .inr ⟨w, h1, h2, fun m h1 h2 => hquiet (hp m h1 h2), hw⟩

/-- l.sys at the boot address; the handler is l.rfe. -/
def sysInput (t : ℕ) : CoreIn :=
  if t = 1 then .word 0x20000000
  else if t = 2 then .word 0x15000000
  else if t = 3 then .word 0x15000000
  else if t = 10 then .word 0x24000000
  else if t = 11 then .word 0x15000000
  else .quiet

theorem sysInput_legal (t : ℕ) : machine.legal (machine.trace reset sysInput t) (sysInput t) := by
  unfold sysInput
  split_ifs with h1 h2 h3 h10 h11
  · subst h1; exact .word (by decide) _
  · subst h2; exact .word (by decide) _
  · subst h3; exact .word (by decide) _
  · subst h10; exact .word (by decide) _
  · subst h11; exact .word (by decide) _
  · exact .quiet

/-- The run on `sysInput`. -/
def sysRun : machine.Run := .ofInput reset sysInput rfl sysInput_legal

theorem clean_cut_sys : sysRun.input = sysInput ∧
    (sysRun.state 3).recognised (sysRun.input 3) = some .syscall ∧
    ∃ w, 3 < w ∧ w ≤ 12 ∧ Delivered sysRun 3 w 0x300 (sysRun.state w).priv.exInsn := by
  have hvec : vectorOf sysRun 3 .syscall = 0x300 := by decide
  have hno : ∀ m, 3 < m → m < 12 → (sysRun.state m).recognised (sysRun.input m) = none := by
    intro m h1 h2
    interval_cases m
    all_goals decide
  refine ⟨rfl, by decide, ?_⟩
  rcases clean_cut (c := .syscall) (by decide) (by decide) hno with hv | ⟨w, h1, h2, -, hd, -⟩
  · exact absurd (hv 12 (by decide) le_rfl).1 (by decide)
  · exact ⟨w, h1, h2, hvec ▸ hd⟩

/-! ### Return -/

variable {r : ℕ}

/-- The EPH bit comes from the pin in the first cycle only, and EX is empty then. -/
theorem first_cycle (h : (R.state t).priv.srReg.bitEphSelect = true) :
    isVoid (R.state t).priv.exInsn = true := by
  cases t with
  | zero => rw [show R.state 0 = reset from R.start]; decide
  | succ t => rw [run_succ] at h; cases h

/-- RUN: without an exception, a cycle ends with `to_sr` in the status register. -/
theorem sr_succ (hidle : (R.state t).priv.except.state = .idle) :
    (R.state (t + 1)).sr (R.input (t + 1)) = (R.state t).toSr (R.input t) := by
  have hs := inv_of_reachable (R.reachable t)
  rw [run_succ]
  refine clk_sr (hs.not_exceptStart hidle) fun hsel => ⟨?_, ?_⟩
  · simp [Privilege.srIn, Privilege.rfe, hs.priv.exBranchOp_of_void (first_cycle hsel)]
  · exact hs.sysWe_of_void (first_cycle hsel) 17

/-- ESR takes what the instruction in EX leaves. -/
theorem Inv.esr_clk (h : Inv s) {c : Cause} (hc : s.recognised i = some c) :
    (s.clk i).priv.except.esr = s.toSr i := by
  refine (Except.clk_recognised (i := s.priv.exceptIn (s.pins i)) hc).2.2.2.trans ?_
  have hst := h.not_exceptStart (Except.state_of_recognised hc)
  cases hwe : (s.priv.srIn (s.pins i)).we with
  | true => exact if_pos hwe
  | false => exact (if_neg (ne_true_of_eq_false hwe)).trans (toSr_of_not_we hst hwe).symm

/-- Between cycle `t` and cycle `r` no exception is recognised, and ESR and EPCR are not written. -/
structure Undisturbed (R : machine.Run) (t r : ℕ) : Prop where
  exception : ∀ u, t < u → u < r → (R.state u).recognised (R.input u) = none
  esr : ∀ u, t < u → u < r → (R.state u).esrWe (R.input u) = false
  epcr : ∀ u, t < u → u < r → (R.state u).epcrWe (R.input u) = false

/-- RUN: the saved registers stay. -/
theorem saved_run (h : Undisturbed R t r) {u : ℕ} (htu : t + 1 ≤ u) (hur : u ≤ r) :
    (R.state u).priv.except.epcr = (R.state (t + 1)).priv.except.epcr ∧
      (R.state u).priv.except.esr = (R.state (t + 1)).priv.except.esr := by
  induction u, htu using Nat.le_induction with
  | base => exact ⟨rfl, rfl⟩
  | succ u hu ih =>
    obtain ⟨hepcr, hesr⟩ := ih (by omega)
    obtain ⟨hepcr', hesr'⟩ := Except.clk_kept (h.exception u hu hur) (h.epcr u hu hur)
      (h.esr u hu hur)
    rw [run_succ]
    exact ⟨hepcr'.trans hepcr, hesr'.trans hesr⟩

/-- An exception and its l.rfe leave the status register as the interrupted program has it. The
    exception is recognised in cycle `t`, and l.rfe is in EX in cycle `r`; what is between them
    takes no further exception and writes neither ESR nor EPCR. Then the status register after l.rfe
    is the one that the instruction in EX at `t` leaves, and l.rfe asks for the saved EPCR. -/
theorem rfe_restores {c : Cause} (hc : (R.state t).recognised (R.input t) = some c) (htr : t < r)
    (h : Undisturbed R t r) (hr : (R.state r).priv.exBranchOp = .rfe) :
    (R.state (r + 1)).sr (R.input (r + 1)) = (R.state t).toSr (R.input t) ∧
    (R.state (t + 1)).sr (R.input (t + 1)) = (R.state t).toSr (R.input t) ∧
    byteAdr ((R.state r).icpuAdrO (R.input r)).1 = (R.state (t + 1)).priv.except.epcr ∧
    (R.state (t + 1)).priv.except.epcr = (R.state t).priv.except.restart c := by
  have hs := inv_of_reachable (R.reachable t)
  have hs' := inv_of_reachable (R.reachable r)
  have hidle' := hs'.idle_of_rfe hr
  obtain ⟨hepcr, hesr⟩ := saved_run h htr le_rfl
  have hrestart : (R.state (t + 1)).priv.except.epcr = (R.state t).priv.except.restart c := by
    rw [run_succ]
    exact (Except.clk_recognised hc).2.2.1
  refine ⟨?_, sr_succ (Except.state_of_recognised hc), ?_, hrestart⟩
  · calc (R.state (r + 1)).sr (R.input (r + 1)) = (R.state r).toSr (R.input r) := sr_succ hidle'
      _ = (R.state r).priv.except.esr :=
        toSr_rfe (hs'.not_exceptStart hidle') (by simp [Privilege.srIn, Privilege.rfe, hr])
      _ = (R.state (t + 1)).priv.except.esr := hesr
      _ = (R.state t).toSr (R.input t) := by rw [run_succ]; exact hs.esr_clk hc
  · rw [hs'.icpuAdrO_rfe hr, hepcr, hrestart]
    exact hs.aligned.restart c

theorem rfe_restores_sys : sysRun.input = sysInput ∧
    (sysRun.state 3).recognised (sysRun.input 3) = some .syscall ∧
    (sysRun.state 12).priv.exBranchOp = .rfe ∧
    (sysRun.state 13).sr (sysRun.input 13) = (sysRun.state 3).toSr (sysRun.input 3) := by
  refine ⟨rfl, by decide, by decide, ?_⟩
  refine (rfe_restores (R := sysRun) (t := 3) (r := 12) (c := .syscall) (by decide) (by decide)
    ⟨?_, ?_, ?_⟩ (by decide)).1
  all_goals
    intro u h1 h2
    interval_cases u
    all_goals decide

end Core

end DsdOrsoc.Or1200
