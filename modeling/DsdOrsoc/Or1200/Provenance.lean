import DsdOrsoc.Or1200.Core

/-! Where the contents of the pipeline come from. Whatever is in ID or EX is a bubble, or an answer
    of the fetch port to the address that travels with it: a word, or the flags of a failed fetch.

    The port may be behind the address that is presented, by one redirection. It is so only while
    the redirecting branch is in EX, where `no_more_dslot` discards the answers:

        port = icpu_adr        the answer is taken
        port ≠ icpu_adr        branch in EX, delay slot in ID, nothing saved: discarded
                               first state of a flush: discarded -/

namespace DsdOrsoc.Or1200
open Schemes

/-! ### Branches in EX -/

namespace Core

variable {s : Core} {i : CoreIn}

/-- A branch is not a load or store, so the data port is silent. -/
theorem Inv.dcpuAck_of_branch (hs : Inv s) (hl : Legal s i) (hb : s.priv.exBranchOp ≠ .nop) :
    i.dcpuAck = false := by
  by_contra hc
  have hlsu := (hl.data (by simp [eq_true_of_ne_false hc])).1
  rw [hs.priv.exBranch] at hb
  exact hlsu (by rw [hs.lsuOp, lsuOp_of_branch hb])

theorem Inv.sysWe_of_branch (hs : Inv s) (hb : s.priv.exBranchOp ≠ .nop) (n : BitVec 11) :
    s.priv.sysWe (s.pins i) n = false := by
  have hw : s.priv.ops.sprWrite = false := by
    rw [hs.priv.exWrite, decide_eq_false_iff_not]
    intro hop
    exact hb (by simp [hs.priv.exBranch, branchOp, hop])
  have hwe : s.priv.sprWe (s.pins i) = false := by
    simp [Privilege.sprWe, Operands.sprWe, Privilege.sprIn, pins, privIn, hw]
  rw [Privilege.sysWe, hwe, Bool.false_and]

/-- A conditional branch does not write the status register. -/
theorem Inv.flag_clk (hs : Inv s) (he : s.exceptStart = false) (hb : s.priv.exBranchOp ≠ .nop)
    (hr : s.priv.exBranchOp ≠ .rfe) : (s.clk i).flag = s.flag := by
  have halu : s.aluOp = aluopNop := by
    rw [hs.aluOp]
    rw [hs.priv.exBranch] at hb
    exact aluOp_of_branch hb
  have hwe : (s.priv.srIn (s.pins i)).we = false := by
    change (s.priv.sysWe (s.pins i) 17 || decide (s.priv.exBranchOp = .rfe) || s.flagWe ||
      s.cyWe i) = false
    simp [hs.sysWe_of_branch hb, hr, flagWe, cyWe, halu, aluFlagWe, aluCyWe, aluopNop]
  have hreg : (s.clk i).priv.srReg.srReg = s.priv.srReg.srReg := by
    refine if_neg ?_
    rw [hwe, Bool.or_false]
    exact ne_true_of_eq_false he
  rw [flag, flag, hreg]

theorem exBranchOp_of_noMoreDslot (h : s.noMoreDslot = true) : s.priv.exBranchOp ≠ .nop := by
  rintro hop
  simp [noMoreDslot, hop] at h

/-- A redirection presents the target. -/
theorem icpuAdrO_of_noMoreDslot (h : s.noMoreDslot = true) (hst : s.exceptStart = false) :
    s.icpuAdrO i = (s.branchPc, s.exBranchTaken) := by
  simp [icpuAdrO, h, pc, hst]

/-! ### A held branch -/

section Hold
variable (hs : Inv s) (hl : Legal s i) (hf : s.flushpipe i = false) (hz : s.idFreeze i = true)
include hs hl hf hz

theorem exBranchOp_held : (s.clk i).priv.exBranchOp = s.priv.exBranchOp :=
  (held_clk hf (hs.exFreeze_eq hl hf) hz).exBranchOp

/-- A branch that is held stays taken or not taken. -/
theorem exBranchTaken_held : (s.clk i).exBranchTaken = s.exBranchTaken := by
  have hst := exceptStart_of_flushpipe hf
  have hst' := not_exceptStart (hs.clk_extendFlush hf)
  rw [exBranchTaken, exBranchTaken, hst, hst', exBranchOp_held hs hl hf hz]
  cases hop : s.priv.exBranchOp with
  | bf => exact hs.flag_clk hst (by simp [hop]) (by simp [hop])
  | bnf => exact congrArg (!·) (hs.flag_clk hst (by simp [hop]) (by simp [hop]))
  | nop => rfl
  | j => rfl
  | jr => rfl
  | rfe => rfl

theorem noMoreDslot_held : (s.clk i).noMoreDslot = s.noMoreDslot := by
  rw [noMoreDslot, noMoreDslot, exBranchTaken_held hs hl hf hz, exBranchOp_held hs hl hf hz,
    (held_clk hf (hs.exFreeze_eq hl hf) hz).idInsn]

/-- A branch that is held keeps its target. -/
theorem branchPc_held (hn : s.noMoreDslot = true) : (s.clk i).branchPc = s.branchPc := by
  have hx : s.exFreeze i = true := (hs.exFreeze_eq hl hf).trans hz
  have hst := exceptStart_of_flushpipe hf
  have htarget : (s.clk i).exBranchAddrtarget = s.exBranchAddrtarget := if_pos hx
  rw [branchPc, branchPc, exBranchOp_held hs hl hf hz]
  rw [noMoreDslot, exBranchTaken, hst] at hn
  cases hop : s.priv.exBranchOp with
  | nop => simp [hop] at hn
  | j => exact htarget
  | jr =>
    have hb : (s.clk i).priv.ops.operandB = s.priv.ops.operandB := by
      change (Operands.operandLatch (s.stage i) _ _ _).1 = _
      simp [Operands.operandLatch, stage_exFreeze, hx]
    exact congrArg wordOf hb
  | bf =>
    have hfl := hs.flag_clk (i := i) hst (by simp [hop]) (by simp [hop])
    have hset : isVoid s.priv.ops.idInsn = false ∧ s.flag = true := by simpa [hop] using hn
    simp [hfl, hset.2, htarget]
  | bnf =>
    have hfl := hs.flag_clk (i := i) hst (by simp [hop]) (by simp [hop])
    have hclear : isVoid s.priv.ops.idInsn = false ∧ s.flag = false := by simpa [hop] using hn
    simp [hfl, hclear.2, htarget]
  | rfe =>
    have hwe := hs.sysWe_of_branch (i := i) (by simp [hop])
    exact congrArg wordOf (Except.clk_kept (of_flushpipe_false hf).1 (hwe 32) (hwe 64)).1

end Hold

/-! ### Answers -/

/-- The word `w` with the flags `f` is an answer of the port to the address `x`. -/
inductive Answer (got : Word → Insn → Prop) (bad : Word → FetchFlags → Prop) (x : Word) (w : Insn)
    (f : FetchFlags) : Prop
  | word (hw : got x w) (hf : f = .clear)
  | fail (hb : bad x f) (hv : isVoid w = true)

/-- The content of a stage. -/
inductive Content (got : Word → Insn → Prop) (bad : Word → FetchFlags → Prop) (x : Word) (w : Insn)
    (f : FetchFlags) : Prop
  | bubble (hv : isVoid w = true) (hf : f = .clear)
  | answer (h : Answer got bad x w f)

/-- INVARIANT: the stages hold answers at their addresses, and the port is behind the address that
    is presented only where its answer is discarded. -/
structure Carries (got : Word → Insn → Prop) (bad : Word → FetchFlags → Prop) (s : Core) :
    Prop where
  port : ∀ x, s.port = some x → x = s.icpuAdr ∨ (s.noMoreDslot = true ∧ s.saved = false) ∨
    s.priv.except.state = .flu1
  target : s.saved = true → s.noMoreDslot = true → s.icpuAdr = s.branchPc
  buffer : s.saved = true → s.noMoreDslot = false →
    Answer got bad s.addrSaved s.insnSaved s.errSaved
  id : Content got bad (wordOf s.priv.except.idPc) s.priv.ops.idInsn s.priv.except.idExceptflags
  ex : Content got bad (wordOf s.priv.except.exPc) s.priv.exInsn s.priv.except.exExceptflags

variable {got got' : Word → Insn → Prop} {bad bad' : Word → FetchFlags → Prop} {x : Word} {w : Insn}
  {f : FetchFlags}

section Mono
variable (hg : ∀ x w, got x w → got' x w) (hb : ∀ x f, bad x f → bad' x f)
include hg hb

theorem Answer.mono (h : Answer got bad x w f) : Answer got' bad' x w f := by
  cases h with
  | word hw hf => exact .word (hg _ _ hw) hf
  | fail h hv => exact .fail (hb _ _ h) hv

theorem Content.mono (h : Content got bad x w f) : Content got' bad' x w f := by
  cases h with
  | bubble hv hf => exact .bubble hv hf
  | answer h => exact .answer (h.mono hg hb)

end Mono

/-- An answer may be replaced by a bubble on its way. -/
theorem Answer.content {w' : Insn} (h : Answer got bad x w f) (hw' : w' = w ∨ isVoid w' = true) :
    Content got bad x w' f := by
  cases h with
  | word hw hf =>
    rcases hw' with rfl | hv
    · exact .answer (.word hw hf)
    · exact .bubble hv hf
  | fail hb hv =>
    rcases hw' with rfl | hv'
    · exact .answer (.fail hb hv)
    · exact .answer (.fail hb hv')

theorem carries_reset : Carries got bad reset where
  port x h := by cases h
  target h := by cases h
  buffer h := by cases h
  id := .bubble isVoid_nopFlushed rfl
  ex := .bubble isVoid_nopFlushed rfl

/-- Only the first state of a flush leaves the port with an old address. -/
theorem Inv.flu1_of_pending (hs : Inv s) (hf : s.flushpipe i = true) (hr : s.flushpipeR = false)
    (ha : i.icpuAck = false) (he : i.icpuErr = false) :
    (s.clk i).priv.except.state = .flu1 := by
  have hnd : ¬ s.Drained := fun hd => by cases hr.symm.trans (hs.drained hd).1
  rw [flushpipe_eq, hs.extendFlush_eq] at hf
  cases transition (s := s) (i := i) with
  | recognise _ _ _ new => exact new
  | drain _ _ new => exact new
  | rest hr' old =>
    rw [show s.recognised i = none from hr', old] at hf
    simp at hf
  | drained hd =>
    change (i.icpuAck || i.icpuErr || s.flushpipeR) = true at hd
    simp [ha, he, hr] at hd
  | trap old => exact absurd (.inl old) hnd
  | third old => exact absurd (.inl old) hnd
  | fourth old => exact absurd (.inr (.inl old)) hnd
  | fifth old => exact absurd (.inr (.inr old)) hnd
  | wait _ old =>
    rw [Core.recognised, Privilege.recognised, Except.recognised, old] at hf
    simp at hf
  | done _ old =>
    rw [Core.recognised, Privilege.recognised, Except.recognised, old] at hf
    simp at hf

/-- A flush leaves bubbles only. -/
theorem carries_flushed (hs : Inv s) (hf : s.flushpipe i = true)
    (hfl : Flushed (s.clk i)) : Carries got' bad' (s.clk i) where
  port x hx := by
    rcases portNext_cases (s := s) (i := i) with hp | hp | ⟨-, h1, h2, h3⟩
    · cases hp.symm.trans hx
    · exact .inl (Option.some.inj (hp.symm.trans hx)).symm
    · exact .inr (.inr (hs.flu1_of_pending hf h1 h2 h3))
  target hsv := by cases hfl.saved.symm.trans hsv
  buffer hsv := by cases hfl.saved.symm.trans hsv
  id := .bubble hfl.void.2 hfl.idFlags
  ex := .bubble hfl.void.1 hfl.exFlags

section Step
variable (hs : Inv s) (hl : Legal s i)
  (hgot : ∀ x, i.icpuAck = true → s.port = some x → got' x i.icpuDat)
  (hbad : ∀ x, i.icpuErr = true → s.port = some x → bad' x i.fetchErr)
  (hg : ∀ x w, got x w → got' x w) (hb : ∀ x f, bad x f → bad' x f)

/-- The word in IF is a bubble or comes from the buffer or the port. -/
theorem ifInsn_cases : isVoid (s.ifInsn i) = true ∨ s.ifInsn i =
    if s.saved then s.insnSaved else if i.icpuAck then i.icpuDat else nopMissing := by
  rw [ifInsn]
  split
  · exact .inl isVoid_nopFlushed
  · exact .inr rfl

include hs hl in
/-- A word that is saved under a redirection is kept with the target presented. -/
theorem target_clk (hf : s.flushpipe i = false) (hsv : (s.clk i).saved = true)
    (hn : (s.clk i).noMoreDslot = true) : (s.clk i).icpuAdr = (s.clk i).branchPc := by
  rw [clk_saved hf, Bool.and_eq_true] at hsv
  rw [noMoreDslot_held hs hl hf hsv.1] at hn
  rw [branchPc_held hs hl hf hsv.1 hn]
  exact congrArg Prod.fst (icpuAdrO_of_noMoreDslot hn (exceptStart_of_flushpipe hf))

section Unflushed
variable (h : Carries got bad s) (hf : s.flushpipe i = false)
include h hs hf

/-- An answer that is not discarded is one to the address that is presented. -/
theorem Carries.port_eq (hn : s.noMoreDslot = false) (hx : s.port = some x) : x = s.icpuAdr := by
  rcases h.port x hx with hadr | ⟨hn', -⟩ | h1
  · exact hadr
  · cases hn.symm.trans hn'
  · exact absurd h1 (hs.ne_flu1 hf)

include hl hgot hbad in
theorem Carries.answer (hn : s.noMoreDslot = false) (ha : (i.icpuAck || i.icpuErr) = true) :
    Answer got' bad' s.icpuAdr (if i.icpuErr then nopFlushed else i.icpuDat) i.fetchErr := by
  obtain ⟨x, hx⟩ := Option.ne_none_iff_exists'.1 (hl.fetch ha)
  have hadr := h.port_eq hs hf hn hx
  subst hadr
  cases he : i.icpuErr with
  | true => exact .fail (hbad _ he hx) isVoid_nopFlushed
  | false =>
    rw [he, Bool.or_false] at ha
    exact .word (hgot _ ha hx) (CoreIn.fetchErr_of_not_err he)

include hl hgot hbad hg hb in
/-- What is in IF is an answer to its address, or a bubble. -/
theorem Carries.content_if : Content got' bad' s.ifPc (s.ifInsn i) (s.ifFlags i) := by
  cases hn : s.noMoreDslot with
  | true =>
    refine .bubble ?_ ?_
    · simp [ifInsn, hn, isVoid_nopFlushed]
    · simp [ifFlags, hn]
  | false =>
    rw [ifPc, ifFlags, hn, if_neg Bool.false_ne_true]
    cases hsv : s.saved with
    | true =>
      refine ((h.buffer hsv hn).mono hg hb).content ?_
      rcases ifInsn_cases (s := s) (i := i) with hv | hw
      · exact .inr hv
      · exact .inl (by rw [hw, hsv, if_pos rfl])
    | false =>
      cases ha : i.icpuAck || i.icpuErr with
      | true =>
        refine (h.answer hs hl hgot hbad hf hn ha).content ?_
        rcases ifInsn_cases (s := s) (i := i) with hv | hw
        · exact .inr hv
        · rw [hw, hsv, if_neg Bool.false_ne_true]
          have hone := hl.fetchOne
          cases hk : i.icpuAck <;> cases he : i.icpuErr <;> simp_all [isVoid_nopMissing]
      | false =>
        rw [Bool.or_eq_false_iff] at ha
        refine .bubble ?_ (CoreIn.fetchErr_of_not_err ha.2)
        exact isVoid_ifInsn_of_stall (by simp [ifStall, ha, hsv])

include hl in
/-- The port falls behind only while its answer is discarded. -/
theorem Carries.port_clk (hx : (s.clk i).port = some x) : x = (s.clk i).icpuAdr ∨
    ((s.clk i).noMoreDslot = true ∧ (s.clk i).saved = false) ∨
    (s.clk i).priv.except.state = .flu1 := by
  rcases portNext_cases (s := s) (i := i) with hp | hp | ⟨hp, -, ha, he⟩
  · cases hp.symm.trans hx
  · exact .inl (Option.some.inj (hp.symm.trans hx)).symm
  have hold : s.port = some x := hp.symm.trans hx
  cases hn : s.noMoreDslot with
  | false =>
    left
    change x = (s.icpuAdrO i).1
    rw [icpuAdrO_kept hn (exceptStart_of_flushpipe hf) (by simp [CoreIn.icpuRty, ha, he])]
    exact h.port_eq hs hf hn hold
  | true =>
    cases hsv : s.saved with
    | false =>
      -- nothing has come, and a branch has no data access that could release the pipeline
      have hz : s.idFreeze i = true := by
        have hdc := hs.dcpuAck_of_branch hl (exBranchOp_of_noMoreDslot hn)
        simp [idFreeze, hdc, ifStall, ha, he, hsv]
      refine .inr (.inl ⟨(noMoreDslot_held hs hl hf hz).trans hn, ?_⟩)
      simp [clk_saved hf, hsv, ha, he]
    | true =>
      left
      change x = (s.icpuAdrO i).1
      rw [icpuAdrO_of_noMoreDslot hn (exceptStart_of_flushpipe hf), ← h.target hsv hn]
      rcases h.port x hold with hadr | ⟨-, hsv'⟩ | h1
      · exact hadr
      · cases hsv.symm.trans hsv'
      · exact absurd h1 (hs.ne_flu1 hf)

include hl hgot hbad hg hb in
theorem Carries.buffer_clk (hsv : (s.clk i).saved = true) (hn : (s.clk i).noMoreDslot = false) :
    Answer got' bad' (s.clk i).addrSaved (s.clk i).insnSaved (s.clk i).errSaved := by
  rw [clk_saved hf, Bool.and_eq_true] at hsv
  obtain ⟨hz, hany⟩ := hsv
  rw [noMoreDslot_held hs hl hf hz] at hn
  cases hold : s.saved with
  | true =>
    obtain ⟨hi, ha, he⟩ := clk_buffer_kept hf hz hold
    rw [hi, ha, he]
    exact (h.buffer hold hn).mono hg hb
  | false =>
    rw [hold, Bool.false_or] at hany
    obtain ⟨hi, ha, he⟩ := clk_buffer_filled hf hz hold hany
    rw [hi, ha, he]
    exact h.answer hs hl hgot hbad hf hn hany

end Unflushed

include hs hl hgot hbad hg hb in
/-- STEP: the contents move with their addresses. -/
theorem Carries.clk (h : Carries got bad s) : Carries got' bad' (s.clk i) := by
  cases hs.edge hl with
  | flushed hf hfl => exact carries_flushed hs hf hfl
  | held hf _ hd =>
    refine ⟨fun _ => h.port_clk hs hl hf, target_clk hs hl hf,
      h.buffer_clk hs hl hgot hbad hg hb hf, ?_, ?_⟩
    · rw [hd.idPc, hd.idInsn, hd.idFlags]
      exact h.id.mono hg hb
    · rw [hd.exPc, hd.exInsn, hd.exFlags]
      exact h.ex.mono hg hb
  | moved hf _ hm =>
    refine ⟨fun _ => h.port_clk hs hl hf, target_clk hs hl hf,
      h.buffer_clk hs hl hgot hbad hg hb hf, ?_, ?_⟩
    · rw [hm.idPc, hm.idInsn, hm.idFlags, wordOf_byteAdr]
      exact h.content_if hs hl hgot hbad hg hb hf
    · rw [hm.exPc, hm.exInsn, hm.exFlags]
      exact h.id.mono hg hb

end Step

/-! ### Runs -/

variable {R : machine.Run}

/-- Before cycle `t` the port has answered the address `x` with the word `w`. -/
def Got (R : machine.Run) (t : ℕ) (x : Word) (w : Insn) : Prop :=
  ∃ k, k < t ∧ (R.input k).icpuAck = true ∧ (R.state k).port = some x ∧ (R.input k).icpuDat = w

/-- Before cycle `t` the fetch of the address `x` has failed with the flags `f`. -/
def Bad (R : machine.Run) (t : ℕ) (x : Word) (f : FetchFlags) : Prop :=
  ∃ k, k < t ∧ (R.input k).icpuErr = true ∧ (R.state k).port = some x ∧ (R.input k).fetchErr = f

/-- RUN: what is in the pipeline has been answered by the port. -/
theorem carries_run (t : ℕ) : Carries (Got R t) (Bad R t) (R.state t) := by
  induction t with
  | zero => rw [show R.state 0 = reset from R.start]; exact carries_reset
  | succ t ih =>
    rw [run_succ]
    refine ih.clk (inv_of_reachable (R.reachable t)) (R.legal t) ?_ ?_ ?_ ?_
    · exact fun x ha hx => ⟨t, by omega, ha, hx, rfl⟩
    · exact fun x he hx => ⟨t, by omega, he, hx, rfl⟩
    · exact fun x w ⟨k, hk, h⟩ => ⟨k, by omega, h⟩
    · exact fun x f ⟨k, hk, h⟩ => ⟨k, by omega, h⟩

end Core

end DsdOrsoc.Or1200
