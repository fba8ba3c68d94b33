import DsdOrsoc.Or1200.Provenance

/-! Where an interrupted program resumes. An instruction in a delay slot has to be restarted at its
    branch, so the exception unit keeps the addresses of the last two instructions that have left EX
    and whether a branch was taken. A load that completes while the fetch stalls lets a bubble in
    between:

        EX     branch   delay slot                 EX     branch   bubble   delay slot
        ex_dslot        1                          ex_dslot        1        0
        wb_pc           branch                     delayed1        0        1
                                                   dl_pc                    branch

    Only the exceptions of the data port look at `delayed1_ex_dslot`. -/

namespace DsdOrsoc.Or1200
open Schemes

/-- What has left EX since the last flush: the last instruction, if it was a jump or taken branch or
    l.rfe with its address and the number of bubbles behind it. -/
inductive Before where
  | plain
  | branch (adr : BitVec 32) (bubbles : ℕ)
  | rfe (adr : BitVec 32) (bubbles : ℕ)
  deriving DecidableEq

namespace Before

/-- A bubble has left EX. -/
def bubble : Before → Before
  | plain => plain
  | branch a n => branch a (n + 1)
  | rfe a n => rfe a (n + 1)

/-- The last instruction that has left EX was taken, and nothing has left since. -/
def fresh : Before → Bool
  | branch _ 0 => true
  | rfe _ 0 => true
  | _ => false

/-- Where the instruction at `pc` that is next in EX is restarted: a delay slot at its branch. -/
def restart (b : Before) (pc : BitVec 32) : BitVec 32 :=
  match b with
  | branch a _ => a
  | _ => pc

theorem fresh_bubble (b : Before) : b.bubble.fresh = false := by
  cases b <;> rfl

theorem fresh_cases {b : Before} (h : b.fresh = true) :
    (∃ a, b = branch a 0) ∨ ∃ a, b = rfe a 0 := by
  cases b with
  | plain => cases h
  | branch a n => cases n with
    | zero => exact .inl ⟨a, rfl⟩
    | succ n => cases h
  | rfe a n => cases n with
    | zero => exact .inr ⟨a, rfl⟩
    | succ n => cases h

theorem bubble_eq_branch {b : Before} {a : BitVec 32} {n : ℕ} (h : b.bubble = branch a n) :
    ∃ m, n = m + 1 ∧ b = branch a m := by
  cases b with
  | branch a' m => cases h; exact ⟨m, rfl, rfl⟩
  | plain => cases h
  | rfe => cases h

theorem bubble_eq_rfe {b : Before} {a : BitVec 32} {n : ℕ} (h : b.bubble = rfe a n) :
    ∃ m, n = m + 1 ∧ b = rfe a m := by
  cases b with
  | rfe a' m => cases h; exact ⟨m, rfl, rfl⟩
  | plain => cases h
  | branch => cases h

end Before

namespace Core

/-- The history after the content of EX has left it. -/
def leave (s : Core) (b : Before) : Before :=
  if isVoid s.priv.exInsn then b.bubble
  else if s.priv.exBranchOp = .rfe then .rfe s.priv.except.exPc 0
  else if s.exBranchTaken then .branch s.priv.except.exPc 0
  else .plain

/-- The history over one edge. -/
def follow (s : Core) (i : CoreIn) (b : Before) : Before :=
  if s.flushpipe i then .plain else if s.idFreeze i then b else s.leave b

/-- The history of a run. -/
def before (R : machine.Run) : ℕ → Before
  | 0 => .plain
  | t + 1 => (R.state t).follow (R.input t) (before R t)

/-! ### Invariant -/

/-- An instruction or a failed fetch. -/
def Filled (w : Insn) (f : FetchFlags) : Prop := isVoid w = false ∨ f.failed = true

/-- INVARIANT: the registers of the exception unit against the history. -/
structure Tracks (b : Before) (s : Core) : Prop where
  dslot : s.priv.except.exDslot = b.fresh
  wbPc : ∀ a, b = .branch a 0 ∨ b = .rfe a 0 → s.priv.except.wbPc = a
  dlPc : ∀ a, b = .branch a 1 → s.priv.except.delayed1ExDslot = true ∧ s.priv.except.dlPc = a
  delayed : isVoid s.priv.exInsn = false → s.priv.except.exDslot = false →
    s.priv.except.delayed1ExDslot = true → ∃ a, b = .branch a 1
  slot : isVoid s.priv.exInsn = false → s.priv.except.exDslot = true →
    isVoid s.priv.ops.idInsn = true
  exRfe : s.priv.exBranchOp = .rfe → isVoid s.priv.ops.idInsn = true
  rfe0 : ∀ a, b = .rfe a 0 → isVoid s.priv.exInsn = true ∧ isVoid s.priv.ops.idInsn = true
  rfe1 : ∀ a, b = .rfe a 1 → isVoid s.priv.exInsn = true
  branch0 : ∀ a, b = .branch a 0 → isVoid s.priv.exInsn = true →
    Filled s.priv.ops.idInsn s.priv.except.idExceptflags
  branch1 : ∀ a n, b = .branch a (n + 1) → n = 0 ∧ Filled s.priv.exInsn s.priv.except.exExceptflags
  busy : s.priv.except.state ≠ .idle → b = .plain

variable {s : Core} {i : CoreIn} {b : Before}

/-- In an empty pipeline nothing is remembered. -/
theorem tracks_empty (hex : isVoid s.priv.exInsn = true) (hid : isVoid s.priv.ops.idInsn = true)
    (hd : s.priv.except.exDslot = false) : Tracks .plain s where
  dslot := hd
  wbPc _ h := by rcases h with h | h <;> cases h
  dlPc _ h := by cases h
  delayed h := by cases hex.symm.trans h
  slot h := by cases hex.symm.trans h
  exRfe _ := hid
  rfe0 _ h := by cases h
  rfe1 _ h := by cases h
  branch0 _ h := by cases h
  branch1 _ _ h := by cases h
  busy _ := rfl

theorem tracks_flushed (hfl : Flushed (s.clk i)) : Tracks .plain (s.clk i) :=
  tracks_empty hfl.void.1 hfl.void.2 hfl.exDslot

/-- STEP: a pipeline that is held remembers the same. -/
theorem Tracks.held (h : Tracks b s) (hs : Inv s) (hf : s.flushpipe i = false)
    (hd : Held s (s.clk i)) : Tracks b (s.clk i) where
  dslot := by rw [hd.exDslot]; exact h.dslot
  wbPc := by rw [hd.wbPc]; exact h.wbPc
  dlPc := by rw [hd.delayed, hd.dlPc]; exact h.dlPc
  delayed := by rw [hd.exInsn, hd.exDslot, hd.delayed]; exact h.delayed
  slot := by rw [hd.exInsn, hd.exDslot, hd.idInsn]; exact h.slot
  exRfe := by rw [hd.exBranchOp, hd.idInsn]; exact h.exRfe
  rfe0 := by rw [hd.exInsn, hd.idInsn]; exact h.rfe0
  rfe1 := by rw [hd.exInsn]; exact h.rfe1
  branch0 := by rw [hd.exInsn, hd.idInsn, hd.idFlags]; exact h.branch0
  branch1 := by rw [hd.exInsn, hd.exFlags]; exact h.branch1
  busy hst := h.busy (hs.busy_of_clk hf hst)

/-- A word behind l.rfe is discarded. -/
theorem exRfe_moved (hm : Moved s i (s.clk i)) (hop : (s.clk i).priv.exBranchOp = .rfe) :
    isVoid (s.clk i).priv.ops.idInsn = true := by
  rw [hm.exBranchOp] at hop
  rw [hm.idInsn, ifInsn, hop]
  simp [isVoid_nopFlushed]

/-- A redirection discards the word in IF. -/
theorem isVoid_ifInsn_of_noMoreDslot (hn : s.noMoreDslot = true) : isVoid (s.ifInsn i) = true := by
  rw [ifInsn, hn]
  exact isVoid_nopFlushed

/-- Without a flush, only an empty pipeline is not idle after the edge. -/
theorem Inv.void_of_busy (hs : Inv s) (hf : s.flushpipe i = false)
    (hst : (s.clk i).priv.except.state ≠ .idle) : isVoid s.priv.exInsn = true :=
  (hs.busy (hs.busy_of_clk hf hst)).1

section Move
variable (hs : Inv s) (hf : s.flushpipe i = false) (hm : Moved s i (s.clk i))
include hs hf hm

/-- A bubble leaves EX. -/
theorem Tracks.moved_bubble (h : Tracks b s) (hex : isVoid s.priv.exInsn = true) :
    Tracks b.bubble (s.clk i) := by
  have hidle : b ≠ .plain → s.priv.except.state = .idle := not_imp_comm.1 h.busy
  have ht := exBranchTaken_of_nop hf (hs.priv.exBranchOp_of_void hex)
  exact
    { dslot := by rw [hm.exDslot, ht, Before.fresh_bubble]
      wbPc := fun a hb => by
        rcases hb with hb | hb
        · obtain ⟨m, hm', -⟩ := Before.bubble_eq_branch hb
          cases hm'
        · obtain ⟨m, hm', -⟩ := Before.bubble_eq_rfe hb
          cases hm'
      dlPc := fun a hb => by
        obtain ⟨m, hm', rfl⟩ := Before.bubble_eq_branch hb
        cases hm'
        exact ⟨by rw [hm.delayed, h.dslot]; rfl, by rw [hm.dlPc]; exact h.wbPc a (.inl rfl)⟩
      delayed := fun hex' _ hd => by
        rw [hm.delayed, h.dslot] at hd
        rw [hm.exInsn] at hex'
        rcases Before.fresh_cases hd with ⟨a, rfl⟩ | ⟨a, rfl⟩
        · exact ⟨a, rfl⟩
        · cases hex'.symm.trans (h.rfe0 a rfl).2
      slot := fun _ hd => by
        rw [hm.exDslot, ht] at hd
        cases hd
      exRfe := exRfe_moved hm
      rfe0 := fun a hb => by
        obtain ⟨m, hm', -⟩ := Before.bubble_eq_rfe hb
        cases hm'
      rfe1 := fun a hb => by
        obtain ⟨m, hm', rfl⟩ := Before.bubble_eq_rfe hb
        cases hm'
        rw [hm.exInsn]
        exact (h.rfe0 a rfl).2
      branch0 := fun a hb => by
        obtain ⟨m, hm', -⟩ := Before.bubble_eq_branch hb
        cases hm'
      branch1 := fun a n hb => by
        obtain ⟨m, hm', rfl⟩ := Before.bubble_eq_branch hb
        cases hm'
        cases n with
        | zero => exact ⟨rfl, by rw [hm.exInsn, hm.exFlags]; exact h.branch0 a rfl hex⟩
        | succ n =>
          -- a second bubble would have to pass what stands behind the first one
          rcases (h.branch1 a n rfl).2 with hv | hfl
          · cases hex.symm.trans hv
          · have hrec : (s.recognised i).isSome = true :=
              Except.recognised_of_failed (hidle (by simp)) hfl
            rw [(of_flushpipe_false hf).1] at hrec
            cases hrec
      busy := fun hst => by
        rw [h.busy (hs.busy_of_clk hf hst)]
        rfl }

/-- l.rfe leaves EX. -/
theorem Tracks.moved_rfe (h : Tracks b s) (hex : isVoid s.priv.exInsn = false)
    (hop : s.priv.exBranchOp = .rfe) : Tracks (.rfe s.priv.except.exPc 0) (s.clk i) where
  dslot := hm.exDslot.trans (exBranchTaken_of_rfe hf hop)
  wbPc a hb := by
    rcases hb with hb | hb <;> cases hb
    exact hm.wbPc
  dlPc _ hb := by cases hb
  delayed hex' := by
    rw [hm.exInsn, h.exRfe hop] at hex'
    cases hex'
  slot hex' := by
    rw [hm.exInsn, h.exRfe hop] at hex'
    cases hex'
  exRfe := exRfe_moved hm
  rfe0 _ _ := by
    rw [hm.exInsn, hm.idInsn]
    exact ⟨h.exRfe hop, isVoid_ifInsn_of_noMoreDslot (by simp [noMoreDslot, hop])⟩
  rfe1 _ hb := by cases hb
  branch0 _ hb := by cases hb
  branch1 _ _ hb := by cases hb
  busy hst := by cases hex.symm.trans (hs.void_of_busy hf hst)

/-- A jump or taken branch leaves EX. -/
theorem tracks_moved_branch (hex : isVoid s.priv.exInsn = false) (ht : s.exBranchTaken = true)
    (hfill : isVoid s.priv.ops.idInsn = true → Filled (s.ifInsn i) (s.ifFlags i)) :
    Tracks (.branch s.priv.except.exPc 0) (s.clk i) where
  dslot := hm.exDslot.trans ht
  wbPc a hb := by
    rcases hb with hb | hb <;> cases hb
    exact hm.wbPc
  dlPc _ hb := by cases hb
  delayed _ hd := by
    rw [hm.exDslot, ht] at hd
    cases hd
  slot hex' _ := by
    rw [hm.exInsn] at hex'
    rw [hm.idInsn]
    refine isVoid_ifInsn_of_noMoreDslot ?_
    have hop : s.priv.exBranchOp ≠ .nop := fun hop => by simp [exBranchTaken_of_nop hf hop] at ht
    simp [noMoreDslot, hop, hex', ht]
  exRfe := exRfe_moved hm
  rfe0 _ hb := by cases hb
  rfe1 _ hb := by cases hb
  branch0 _ _ hv := by
    rw [hm.exInsn] at hv
    rw [hm.idInsn, hm.idFlags]
    exact hfill hv
  branch1 _ _ hb := by cases hb
  busy hst := by cases hex.symm.trans (hs.void_of_busy hf hst)

omit hs hf in
/-- Another instruction leaves EX. -/
theorem Tracks.moved_plain (h : Tracks b s) (hex : isVoid s.priv.exInsn = false)
    (ht : s.exBranchTaken = false) : Tracks .plain (s.clk i) where
  dslot := hm.exDslot.trans ht
  wbPc _ hb := by rcases hb with hb | hb <;> cases hb
  dlPc _ hb := by cases hb
  delayed hex' _ hd := by
    rw [hm.exInsn] at hex'
    rw [hm.delayed] at hd
    cases hex'.symm.trans (h.slot hex hd)
  slot _ hd := by
    rw [hm.exDslot, ht] at hd
    cases hd
  exRfe := exRfe_moved hm
  rfe0 _ hb := by cases hb
  rfe1 _ hb := by cases hb
  branch0 _ hb := by cases hb
  branch1 _ _ hb := by cases hb
  busy _ := rfl

end Move

/-! ### Runs -/

variable {got : Word → Insn → Prop} {bad : Word → FetchFlags → Prop}

/-- Behind a branch, what comes out of the buffer or from the port is an instruction or a failed
    fetch. -/
theorem Carries.filled_if (hc : Carries got bad s) (hs : Inv s) (hl : Legal s i)
    (hb : ∀ x f, bad x f → f.failed = true) (hw : ∀ w, got s.ifPc w → isVoid w = false)
    (hword : i.icpuAck = true → s.port = some s.ifPc → isVoid i.icpuDat = false)
    (hf : s.flushpipe i = false) (hz : s.idFreeze i = false) (hop : s.priv.exBranchOp ≠ .nop)
    (hrfe : s.priv.exBranchOp ≠ .rfe) (hid : isVoid s.priv.ops.idInsn = true) :
    Filled (s.ifInsn i) (s.ifFlags i) := by
  have hn : s.noMoreDslot = false := by simp [noMoreDslot, hid, hrfe]
  have hidop : s.priv.idBranchOp = .nop := by rw [hs.priv.idBranch, branchOp_of_isVoid hid]
  have hst : s.ifStall i = false := by
    simp only [idFreeze, hs.dcpuAck_of_branch hl hop, Bool.or_eq_false_iff] at hz
    simpa using hz.1.1.2
  rw [hs.ifInsn_eq hf hn (by simp [hidop]), ifFlags, hn, if_neg Bool.false_ne_true]
  cases hsv : s.saved with
  | true =>
    rw [ifPc, hsv, if_pos rfl] at hw
    cases hc.buffer hsv hn with
    | word h _ => exact .inl (hw _ h)
    | fail h _ => exact .inr (hb _ _ h)
  | false =>
    rw [if_neg Bool.false_ne_true, if_neg Bool.false_ne_true]
    cases ha : i.icpuAck with
    | true =>
      obtain ⟨x, hx⟩ := Option.ne_none_iff_exists'.1 (hl.fetch (by rw [ha]; rfl))
      refine .inl (hword ha ?_)
      rw [ifPc, hsv, if_neg Bool.false_ne_true, hx, hc.port_eq hs hf hn hx]
    | false =>
      right
      rw [CoreIn.failed_fetchErr]
      simpa [ifStall, hsv, ha] using hst

/-- STEP: the registers go on with the history. -/
theorem Tracks.clk (h : Tracks b s) (hc : Carries got bad s) (hs : Inv s) (hl : Legal s i)
    (hb : ∀ x f, bad x f → f.failed = true)
    (hw : s.exBranchTaken = true → isVoid s.priv.ops.idInsn = true →
      (∀ w, got s.ifPc w → isVoid w = false) ∧
        (i.icpuAck = true → s.port = some s.ifPc → isVoid i.icpuDat = false)) :
    Tracks (s.follow i b) (s.clk i) := by
  cases hs.edge hl with
  | flushed hf hfl => rw [follow, hf]; exact tracks_flushed hfl
  | held hf hz hd => rw [follow, hf, hz]; exact h.held hs hf hd
  | moved hf hz hm =>
    rw [follow, hf, hz]
    change Tracks (s.leave b) (s.clk i)
    unfold leave
    split_ifs with hex hop ht
    · exact h.moved_bubble hs hf hm hex
    · exact h.moved_rfe hs hf hm (by simpa using hex) hop
    · refine tracks_moved_branch hs hf hm (by simpa using hex) ht fun hid => ?_
      have hnop : s.priv.exBranchOp ≠ .nop := fun hnop => by
        simp [exBranchTaken_of_nop hf hnop] at ht
      obtain ⟨h1, h2⟩ := hw ht hid
      exact hc.filled_if hs hl hb h1 h2 hf hz hnop hop hid
    · exact h.moved_plain hm (by simpa using hex) (by simpa using ht)

variable {R : machine.Run} {t : ℕ} {c : Cause}

/-- Before cycle `t`, no word that the port has delivered for the place behind a jump or taken
    branch, while that is in EX and ID is empty, has the code of a bubble. -/
def SlotsFilled (R : machine.Run) (t : ℕ) : Prop :=
  ∀ u < t, (R.state u).exBranchTaken = true → isVoid (R.state u).priv.ops.idInsn = true →
    ∀ w, Got R (u + 1) (R.state u).ifPc w → isVoid w = false

/-- No word that the port delivers has the code of a bubble. -/
def NoBubbles (R : machine.Run) : Prop :=
  ∀ t, (R.input t).icpuAck = true → isVoid (R.input t).icpuDat = false

theorem NoBubbles.slotsFilled (h : NoBubbles R) (t : ℕ) : SlotsFilled R t := by
  rintro u - - - w ⟨k, -, ha, -, rfl⟩
  exact h k ha

/-- RUN: the registers of the exception unit follow the history. -/
theorem tracks_run : ∀ t, SlotsFilled R t → Tracks (before R t) (R.state t) := by
  intro t
  induction t with
  | zero =>
    intro _
    rw [show R.state 0 = reset from R.start]
    exact tracks_empty (by decide) (by decide) rfl
  | succ t ih =>
    intro hw
    rw [run_succ]
    refine (ih fun u hu => hw u (by omega)).clk (carries_run t) (inv_of_reachable (R.reachable t))
      (R.legal t) ?_ fun ht hid => ⟨fun w hg => ?_, fun ha hp => ?_⟩
    · rintro x f ⟨k, -, he, -, rfl⟩
      rw [CoreIn.failed_fetchErr, he]
    · obtain ⟨k, hk, h⟩ := hg
      exact hw t (by omega) ht hid w ⟨k, by omega, h⟩
    · exact hw t (by omega) ht hid _ ⟨t, by omega, ha, hp, rfl⟩

/-! ### Exceptions of the instruction in EX -/

/-- The restart address is wrong only where a bubble has come between a branch and its delay slot,
    for the two exceptions that do not look that far back. -/
theorem Tracks.restart_iff (h : Tracks b s) (hv : isVoid s.priv.exInsn = false)
    (hc : c.aborts = true) : s.priv.except.restart c = b.restart s.priv.except.exPc ↔
      ∀ a, b = .branch a 1 → c = .illegal ∨ c = .align → a = s.priv.except.exPc := by
  have hplain (hd : s.priv.except.exDslot = false) (hb : ∀ a, b ≠ .branch a 1) :
      s.priv.except.restart c = s.priv.except.exPc := by
    refine Except.restart_of_plain hc hd (.inr (.inr ?_))
    by_contra hd1
    obtain ⟨a, ha⟩ := h.delayed hv hd (eq_true_of_ne_false hd1)
    exact hb a ha
  cases b with
  | plain => simp [Before.restart, hplain h.dslot (by simp)]
  | branch a n =>
    cases n with
    | zero =>
      simp [Before.restart, Except.restart_of_dslot (.inl hc) h.dslot, h.wbPc a (.inl rfl)]
    | succ n =>
      obtain ⟨rfl, -⟩ := h.branch1 a n rfl
      obtain ⟨hd1, hdl⟩ := h.dlPc a rfl
      by_cases hlook : c = .illegal ∨ c = .align
      · rw [Except.restart_of_plain hc h.dslot (by tauto)]
        simp [Before.restart, hlook, eq_comm]
      · have hc' : c = .dtlbmiss ∨ c = .dpf ∨ c = .dbuserr := by
          cases c <;> simp [Cause.aborts] at hc hlook ⊢
        simp [Before.restart, hlook, Except.restart_of_delayed hc' h.dslot hd1, hdl]
  | rfe a n =>
    cases n with
    | zero => cases hv.symm.trans (h.rfe0 a rfl).1
    | succ n => simp [Before.restart, hplain h.dslot (by simp)]

/-- The restart address of an exception of the instruction in EX. The instruction is the word that
    the port has delivered for `ex_pc`. EPCR is its address, or that of its branch if it is in a
    delay slot, exactly if it is not an illegal or misaligned instruction in a delay slot that a
    bubble has separated from its branch. -/
theorem data_restart_iff (hw : SlotsFilled R t) (hr : (R.state t).recognised (R.input t) = some c)
    (hc : c.aborts = true) :
    Got R t (wordOf (R.state t).priv.except.exPc) (R.state t).priv.exInsn ∧
    ((R.state (t + 1)).priv.except.epcr = (before R t).restart (R.state t).priv.except.exPc ↔
      ∀ a, before R t = .branch a 1 → c = .illegal ∨ c = .align →
        a = (R.state t).priv.except.exPc) := by
  have hs := inv_of_reachable (R.reachable t)
  have ha : ((R.state t).exceptPins (R.input t)).abortEx = true :=
    Except.abort_of_recognised (i := (R.state t).priv.exceptIn _) hr hc
  have hv := hs.not_void_of_abort (R.legal t) ha
  refine ⟨?_, ?_⟩
  · cases (carries_run t).ex with
    | bubble hv' => cases hv.symm.trans hv'
    | answer ha =>
      cases ha with
      | word hg _ => exact hg
      | fail _ hv' => cases hv.symm.trans hv'
  · rw [run_succ, show ((R.state t).clk (R.input t)).priv.except.epcr = _ from
      (Except.clk_recognised hr).2.2.1]
    exact (tracks_run t hw).restart_iff hv hc

/-- l.lwz, l.j and an illegal instruction in the delay slot, which is fetched before the load
    completes; at the target of the jump is a word with the code of a bubble. -/
def closeInput (t : ℕ) : CoreIn :=
  if t = 1 then .word 0x84200000
  else if t = 2 then .word 0x00000004
  else if t = 3 then { CoreIn.word 0xfc000000 with dcpuAck := true }
  else if t = 5 then .word 0x15010000
  else .quiet

theorem closeInput_legal (t : ℕ) :
    machine.legal (machine.trace reset closeInput t) (closeInput t) := by
  unfold closeInput
  split_ifs with h1 h2 h3 h5
  · subst h1; exact .word (by decide) _
  · subst h2; exact .word (by decide) _
  · subst h3; exact ⟨fun _ => by decide, rfl, fun _ => by decide⟩
  · subst h5; exact .word (by decide) _
  · exact .quiet

def closeRun : machine.Run := .ofInput reset closeInput rfl closeInput_legal

theorem closeRun_slotsFilled : SlotsFilled closeRun 6 := by
  -- when the word at the target is delivered, the delay slot is in ID
  have hex : ∀ u < 6, (closeRun.state u).exBranchTaken = true →
      isVoid (closeRun.state u).priv.ops.idInsn = true → u < 4 := by decide
  have hin : ∀ k < 5, (closeRun.input k).icpuAck = true →
      isVoid (closeRun.input k).icpuDat = false := by decide
  rintro u hu ht hid w ⟨k, hk, ha, -, rfl⟩
  have hu4 := hex u hu ht hid
  exact hin k (by omega) ha

theorem data_restart_iff_close : closeRun.input = closeInput ∧ SlotsFilled closeRun 6 ∧
    (closeRun.state 6).recognised (closeRun.input 6) = some .illegal ∧
    (closeRun.state 6).priv.except.exPc = 0x108 ∧
    (closeRun.state 7).priv.except.epcr = (before closeRun 6).restart 0x108 := by
  have hb : before closeRun 6 = .branch 0x104 0 := by decide
  refine ⟨rfl, closeRun_slotsFilled, by decide, by decide, ?_⟩
  refine (data_restart_iff (c := .illegal) closeRun_slotsFilled (by decide) rfl).2.2 fun a ha => ?_
  rw [hb] at ha
  cases ha

/-- The same program with the load completing before the slot is fetched, or fails to be. -/
def slipInput (fails : Bool) (t : ℕ) : CoreIn :=
  if t = 1 then .word 0x84200000
  else if t = 2 then .word 0x00000004
  else if t = 4 then { CoreIn.quiet with dcpuAck := true }
  else if t = 5 ∨ t = 6 then bif fails then .fail .te else .word 0xfc000000
  else .quiet

theorem slipInput_legal (fails : Bool) (t : ℕ) :
    machine.legal (machine.trace reset (slipInput fails) t) (slipInput fails t) := by
  unfold slipInput
  split_ifs with h1 h2 h4 h5
  · subst h1
    exact .word (by revert fails; decide) _
  · subst h2
    exact .word (by revert fails; decide) _
  · subst h4
    exact ⟨fun h => (by cases h), rfl, fun _ => by revert fails; decide⟩
  · cases fails <;> rcases h5 with rfl | rfl
    · exact .word (by decide) _
    · exact .word (by decide) _
    · exact .fail (by decide) _
    · exact .fail (by decide) _
  · exact .quiet

def slipRun (fails : Bool) : machine.Run :=
  .ofInput reset (slipInput fails) rfl (slipInput_legal fails)

/-- The illegal instruction in the delay slot is restarted at its own address: the jump is lost. -/
theorem illegal_behind_bubble : NoBubbles (slipRun false) ∧
    ((slipRun false).state 7).recognised ((slipRun false).input 7) = some .illegal ∧
    before (slipRun false) 7 = .branch 0x104 1 ∧
    ((slipRun false).state 7).priv.except.exPc = 0x108 ∧
    ((slipRun false).state 8).priv.except.epcr = 0x108 ∧
    ((slipRun false).state 8).priv.except.epcr ≠
      (before (slipRun false) 7).restart ((slipRun false).state 7).priv.except.exPc := by
  refine ⟨fun t => ?_, by decide, by decide, by decide, by decide, by decide⟩
  change (slipInput false t).icpuAck = true → isVoid (slipInput false t).icpuDat = false
  unfold slipInput
  split_ifs <;> decide

/-! ### Page faults of a fetch

The restart address of a page fault is `id_pc`. It is right because the address that has faulted is
asked for again, so that what comes behind the fault is another answer to the same address. -/

/-- While a page fault is in the save buffer, the same fetch does not end in a bus error. -/
def Steady (s : Core) (i : CoreIn) : Prop :=
  s.saved = true → s.errSaved.immufault = true → i.icpuErr = true → i.icpuTag ≠ .be

/-- INVARIANT: behind a page fault comes the address that has faulted. -/
structure Repeats (s : Core) : Prop where
  buffer : s.saved = true → s.errSaved.immufault = true →
    s.noMoreDslot = true ∨ s.addrSaved = s.icpuAdr
  id : s.priv.except.idExceptflags.immufault = true →
    s.priv.exBranchOp = .rfe ∨ s.priv.except.idPc = byteAdr s.ifPc
  ex : s.priv.except.exExceptflags.immufault = true →
    s.priv.except.exDslot = true ∨ s.priv.except.idPc = s.priv.except.exPc

theorem repeats_of_clear (hsv : s.saved = false) (hid : s.priv.except.idExceptflags = .clear)
    (hex : s.priv.except.exExceptflags = .clear) : Repeats s where
  buffer h := by cases hsv.symm.trans h
  id h := by rw [hid] at h; cases h
  ex h := by rw [hex] at h; cases h

/-- Without a redirection, an address is given up for a new word or a bus error only. -/
theorem icpuAdr_kept (hf : s.flushpipe i = false) (hn : s.noMoreDslot = false)
    (ha : i.icpuAck = true → s.saved = true) (he : i.icpuErr = true → i.icpuTag ≠ .be) :
    (s.clk i).icpuAdr = s.icpuAdr := by
  refine congrArg Prod.fst (icpuAdrO_kept hn (exceptStart_of_flushpipe hf) ?_)
  cases hk : i.icpuAck with
  | true => simp [genpcRefetch, hk, ha hk]
  | false => cases hi : i.icpuErr <;> simp_all [CoreIn.icpuRty]

theorem immufault_fetchErr (h : i.fetchErr.immufault = true) :
    i.icpuErr = true ∧ i.icpuTag = .pe := by
  simpa [CoreIn.fetchErr] using h

/-- In a frozen pipeline the address in IF stays. -/
theorem ifPc_held (hf : s.flushpipe i = false) (hz : s.idFreeze i = true)
    (hn : s.noMoreDslot = false) : (s.clk i).ifPc = s.ifPc := by
  have hsv' := clk_saved hf
  rw [hz, Bool.true_and] at hsv'
  rw [ifPc, ifPc, hsv']
  cases hold : s.saved with
  | true => simp [(clk_buffer_kept hf hz hold).2.1]
  | false =>
    cases hany : i.icpuAck || i.icpuErr with
    | true => simp [hany, (clk_buffer_filled hf hz hold hany).2.1]
    | false =>
      rw [Bool.or_eq_false_iff] at hany
      simp [hany, icpuAdr_kept hf hn (by simp [hany.1]) (by simp [hany.2])]

/-- A page fault travels in a bubble. -/
theorem Carries.void_of_fault (hc : Carries got bad s)
    (hpf : s.priv.except.idExceptflags.immufault = true) :
    isVoid s.priv.ops.idInsn = true := by
  cases hc.id with
  | bubble hv => exact hv
  | answer ha =>
    cases ha with
    | fail _ hv => exact hv
    | word _ hcl =>
      rw [hcl] at hpf
      cases hpf

section Faults
variable (h : Repeats s) (hl : Legal s i) (hst : Steady s i) (hf : s.flushpipe i = false)
include h hl hst hf

theorem Repeats.buffer_clk (hs : Inv s) (hsv : (s.clk i).saved = true)
    (hpf : (s.clk i).errSaved.immufault = true) :
    (s.clk i).noMoreDslot = true ∨ (s.clk i).addrSaved = (s.clk i).icpuAdr := by
  rw [clk_saved hf, Bool.and_eq_true] at hsv
  obtain ⟨hz, hany⟩ := hsv
  rw [noMoreDslot_held hs hl hf hz]
  cases hn : s.noMoreDslot with
  | true => exact .inl rfl
  | false =>
    right
    cases hold : s.saved with
    | true =>
      obtain ⟨-, ha, he⟩ := clk_buffer_kept hf hz hold
      rw [he] at hpf
      rw [ha, icpuAdr_kept hf hn (fun _ => hold) (hst hold hpf)]
      exact (h.buffer hold hpf).resolve_left (by simp [hn])
    | false =>
      rw [hold, Bool.false_or] at hany
      obtain ⟨-, ha, he⟩ := clk_buffer_filled hf hz hold hany
      rw [he] at hpf
      obtain ⟨herr, htag⟩ := immufault_fetchErr hpf
      have hone := hl.fetchOne
      rw [ha, icpuAdr_kept hf hn (fun hk => by simp [hk, herr] at hone) fun _ => by simp [htag]]

/-- A page fault that goes to ID leaves its address in IF. -/
theorem Repeats.ifPc_moved (hz : s.idFreeze i = false)
    (hpf : (s.ifFlags i).immufault = true) : (s.clk i).ifPc = s.ifPc := by
  have hn : s.noMoreDslot = false := by
    by_contra hn
    simp [ifFlags, eq_true_of_ne_false hn, FetchFlags.clear] at hpf
  have hsv' : (s.clk i).saved = false := by
    rw [clk_saved hf, hz, Bool.false_and]
  rw [ifPc, ifPc, hsv', if_neg Bool.false_ne_true]
  rw [ifFlags, hn, if_neg Bool.false_ne_true] at hpf
  cases hold : s.saved with
  | true =>
    rw [hold, if_pos rfl] at hpf
    rw [if_pos rfl, icpuAdr_kept hf hn (fun _ => hold) (hst hold hpf)]
    exact ((h.buffer hold hpf).resolve_left (by simp [hn])).symm
  | false =>
    rw [hold, if_neg Bool.false_ne_true] at hpf
    obtain ⟨herr, htag⟩ := immufault_fetchErr hpf
    have hone := hl.fetchOne
    rw [if_neg Bool.false_ne_true,
      icpuAdr_kept hf hn (fun hk => by simp [hk, herr] at hone) fun _ => by simp [htag]]

end Faults

/-- STEP: behind a page fault its address is asked for again. -/
theorem Repeats.clk (h : Repeats s) (hs : Inv s) (hl : Legal s i) (hst : Steady s i)
    (hc : Carries got bad s) : Repeats (s.clk i) := by
  cases hs.edge hl with
  | flushed hf hfl => exact repeats_of_clear hfl.saved hfl.idFlags hfl.exFlags
  | held hf hz hd =>
    refine ⟨h.buffer_clk hl hst hf hs, fun hpf => ?_, ?_⟩
    · rw [hd.idFlags] at hpf
      rw [hd.exBranchOp, hd.idPc]
      by_cases hop : s.priv.exBranchOp = .rfe
      · exact .inl hop
      · rw [ifPc_held hf hz (by simp [noMoreDslot, hc.void_of_fault hpf, hop])]
        exact h.id hpf
    · rw [hd.exFlags, hd.exDslot, hd.idPc, hd.exPc]
      exact h.ex
  | moved hf hz hm =>
    refine ⟨h.buffer_clk hl hst hf hs, fun hpf => .inr ?_, fun hpf => ?_⟩
    · rw [hm.idFlags] at hpf
      rw [hm.idPc, h.ifPc_moved hl hst hf hz hpf]
    · rw [hm.exFlags] at hpf
      rw [hm.exDslot, hm.idPc, hm.exPc]
      exact (h.id hpf).imp (exBranchTaken_of_rfe hf) Eq.symm

/-! ### Exceptions of a fetch -/

theorem repeats_run : ∀ t, (∀ u < t, Steady (R.state u) (R.input u)) → Repeats (R.state t) := by
  intro t
  induction t with
  | zero =>
    intro _
    rw [show R.state 0 = reset from R.start]
    exact repeats_of_clear rfl rfl rfl
  | succ t ih =>
    intro hst
    rw [run_succ]
    exact (ih fun u hu => hst u (by omega)).clk (inv_of_reachable (R.reachable t)) (R.legal t)
      (hst t (by omega)) (carries_run t)

/-- The restart address of a failed fetch: the branch behind which it has come, or its own. -/
theorem Repeats.restart_eq (h : Repeats s) (hr : s.recognised i = some c) (hc : c.fetches = true) :
    s.priv.except.restart c =
      if s.priv.except.exDslot then s.priv.except.wbPc else s.priv.except.exPc := by
  cases hd : s.priv.except.exDslot with
  | true => exact Except.restart_of_dslot (.inr hc) hd
  | false =>
    cases c <;> simp [Cause.fetches] at hc <;> simp only [Except.restart, hd]
    exact (h.ex (Except.immufault_of_recognised hr)).resolve_left (by simp [hd])

/-- The restart address of a failed fetch is wrong only where a bubble has come between a branch and
    its delay slot, or behind l.rfe. -/
theorem Tracks.fetch_iff (h : Tracks b s) (hp : Repeats s) (hr : s.recognised i = some c)
    (hc : c.fetches = true) : s.priv.except.restart c = b.restart s.priv.except.exPc ↔
      ∀ a, b = .branch a 1 ∨ b = .rfe a 0 → a = s.priv.except.exPc := by
  rw [hp.restart_eq hr hc, h.dslot]
  cases b with
  | plain => simp [Before.fresh, Before.restart]
  | branch a n =>
    cases n with
    | zero => simp [Before.fresh, Before.restart, h.wbPc a (.inl rfl)]
    | succ n =>
      obtain ⟨rfl, -⟩ := h.branch1 a n rfl
      simp [Before.fresh, Before.restart, eq_comm]
  | rfe a n =>
    cases n with
    | zero => simp [Before.fresh, Before.restart, h.wbPc a (.inr rfl)]
    | succ n => simp [Before.fresh, Before.restart]

/-- The restart address of a failed fetch, which is that of `ex_pc`. EPCR is this address, or that
    of the branch if the word would be in its delay slot, exactly if no bubble has come between the
    two, and the word is not the one behind l.rfe. -/
theorem fetch_restart_iff (hw : SlotsFilled R t) (hst : ∀ u < t, Steady (R.state u) (R.input u))
    (hr : (R.state t).recognised (R.input t) = some c) (hc : c.fetches = true) :
    Bad R t (wordOf (R.state t).priv.except.exPc) (R.state t).priv.except.exExceptflags ∧
    ((R.state (t + 1)).priv.except.epcr = (before R t).restart (R.state t).priv.except.exPc ↔
      ∀ a, before R t = .branch a 1 ∨ before R t = .rfe a 0 →
        a = (R.state t).priv.except.exPc) := by
  have hfl : (R.state t).priv.except.exExceptflags.failed = true :=
    Except.failed_of_recognised hr hc
  refine ⟨?_, ?_⟩
  · cases (carries_run t).ex with
    | bubble _ hcl => rw [hcl] at hfl; cases hfl
    | answer ha =>
      cases ha with
      | word _ hcl => rw [hcl] at hfl; cases hfl
      | fail hb _ => exact hb
  · rw [run_succ, show ((R.state t).clk (R.input t)).priv.except.epcr = _ from
      (Except.clk_recognised hr).2.2.1]
    exact (tracks_run t hw).fetch_iff (repeats_run t hst) hr hc

/-- l.j with a delay slot that cannot be fetched. -/
def slotInput (t : ℕ) : CoreIn :=
  if t = 1 then .word 0x00000004
  else if t = 2 then .fail .te
  else if t = 3 then .fail .te
  else .quiet

theorem slotInput_legal (t : ℕ) :
    machine.legal (machine.trace reset slotInput t) (slotInput t) := by
  unfold slotInput
  split_ifs with h1 h2 h3
  · subst h1; exact .word (by decide) _
  · subst h2; exact .fail (by decide) _
  · subst h3; exact .fail (by decide) _
  · exact .quiet

def slotRun : machine.Run := .ofInput reset slotInput rfl slotInput_legal

theorem fetch_restart_iff_slot : slotRun.input = slotInput ∧ NoBubbles slotRun ∧
    (∀ t, Steady (slotRun.state t) (slotRun.input t)) ∧
    (slotRun.state 4).recognised (slotRun.input 4) = some .itlbmiss ∧
    (slotRun.state 4).priv.except.exPc = 0x104 ∧
    (slotRun.state 5).priv.except.epcr = (before slotRun 4).restart 0x104 := by
  have hw : NoBubbles slotRun := by
    intro t
    change (slotInput t).icpuAck = true → isVoid (slotInput t).icpuDat = false
    unfold slotInput
    split_ifs <;> decide
  have hst : ∀ t, Steady (slotRun.state t) (slotRun.input t) := by
    intro t _ _
    change (slotInput t).icpuErr = true → (slotInput t).icpuTag ≠ .be
    unfold slotInput
    split_ifs <;> decide
  have hb : before slotRun 4 = .branch 0x100 0 := by decide
  refine ⟨rfl, hw, hst, by decide, by decide, ?_⟩
  refine (fetch_restart_iff (c := .itlbmiss) (hw.slotsFilled 4) (fun u _ => hst u) (by decide)
    rfl).2.2 fun a ha => ?_
  rw [hb] at ha
  rcases ha with ha | ha <;> cases ha

/-- l.rfe in front of a word that cannot be fetched. -/
def rfeInput (t : ℕ) : CoreIn :=
  if t = 1 then .word 0x24000000
  else if t = 2 then .fail .te
  else if t = 3 then .fail .te
  else .quiet

theorem rfeInput_legal (t : ℕ) : machine.legal (machine.trace reset rfeInput t) (rfeInput t) := by
  unfold rfeInput
  split_ifs with h1 h2 h3
  · subst h1; exact .word (by decide) _
  · subst h2; exact .fail (by decide) _
  · subst h3; exact .fail (by decide) _
  · exact .quiet

def rfeRun : machine.Run := .ofInput reset rfeInput rfl rfeInput_legal

/-- The delay slot that could not be fetched is restarted without its jump, and the word behind
    l.rfe raises an exception that is restarted at l.rfe. -/
theorem failed_fetch_misplaced :
    (((slipRun true).state 7).recognised ((slipRun true).input 7) = some .itlbmiss ∧
      before (slipRun true) 7 = .branch 0x104 1 ∧
      ((slipRun true).state 7).priv.except.exPc = 0x108 ∧
      ((slipRun true).state 8).priv.except.epcr = 0x108 ∧
      ((slipRun true).state 8).priv.except.epcr ≠
        (before (slipRun true) 7).restart ((slipRun true).state 7).priv.except.exPc) ∧
    (rfeRun.state 4).recognised (rfeRun.input 4) = some .itlbmiss ∧
    before rfeRun 4 = .rfe 0x100 0 ∧ (rfeRun.state 4).priv.except.exPc = 0x104 ∧
    (rfeRun.state 5).priv.except.epcr = 0x100 ∧
    (rfeRun.state 5).priv.except.epcr ≠
      (before rfeRun 4).restart (rfeRun.state 4).priv.except.exPc := by
  refine ⟨⟨?_, ?_, ?_, ?_, ?_⟩, ?_, ?_, ?_, ?_, ?_⟩ <;> decide

end Core

end DsdOrsoc.Or1200
