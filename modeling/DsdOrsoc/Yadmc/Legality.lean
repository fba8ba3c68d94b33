import DsdOrsoc.Schemes.Machine
import DsdOrsoc.Yadmc.Sdram16

/-! SDRAM command legality of `yadmc_sdram16`.

    The controller runs against any environment that has at most one command outstanding and keeps
    `evict_adr` and `refill_adr` stable until `command_ack`; configuration, refresh times and data
    are arbitrary in every cycle. The open row of a bank is what the HISTORY of issued commands
    says, not what the controller's row tracker believes: the invariant relates the two, with the
    one exception that the bank between PRECHARGE and ACTIVATE is closed while its tracker entry is
    not (single-bank precharges are never recorded). -/

namespace DsdOrsoc.Yadmc.Legality
open Schemes

/-- The row that the issued commands, latest first, have left open in a bank. -/
def openRow : List Cmd → Bank → Option Row
  | [], _ => none
  | .prechargeAll :: _, _ => none
  | .precharge b' :: h, b => if b = b' then none else openRow h b
  | .activate b' r :: h, b => if b = b' then some r else openRow h b
  | _ :: h, b => openRow h b

/-- PRECHARGE ALL, two AUTO REFRESH and LOAD MODE have been issued, in this order. -/
def Initialized (hist : List Cmd) : Prop :=
  ∃ mode, [.prechargeAll, .autoRefresh, .autoRefresh, .loadMode mode].Sublist hist.reverse

/-- The controller with two observers: the commands issued so far, latest first, and the addresses
    of the outstanding command. -/
structure System where
  core : Sdram16
  hist : List Cmd
  busy : Option (LineAdr × LineAdr)

namespace System

variable (s : System) (i : SdramIn)

/-- The command that the next edge puts on the pins. -/
def issued : Cmd := (s.core.clk i).pins.cmd

def step : System where
  core := s.core.clk i
  hist := s.issued i :: s.hist
  busy :=
    if s.core.commandAck i then none
    else if i.commandEvict || i.commandRefill then some (i.evictAdr, i.refillAdr) else s.busy

/-- One command at a time, its addresses stable until the acknowledge. -/
def legal : Prop :=
  (i.commandEvict && i.commandRefill) = false ∧
  ∀ p ∈ s.busy,
    i.commandEvict = false ∧ i.commandRefill = false ∧ i.evictAdr = p.1 ∧ i.refillAdr = p.2

instance : Decidable (s.legal i) :=
  match hb : s.busy with
  | none => decidable_of_iff ((i.commandEvict && i.commandRefill) = false) (by simp [legal, hb])
  | some p =>
    decidable_of_iff ((i.commandEvict && i.commandRefill) = false ∧ i.commandEvict = false ∧
      i.commandRefill = false ∧ i.evictAdr = p.1 ∧ i.refillAdr = p.2) (by simp [legal, hb])

end System

/-- The outstanding command after an edge: acknowledged, new, or the old one. -/
theorem busy_cases (s : System) (i : SdramIn) :
    (s.step i).busy = none ∨
    ((i.commandEvict || i.commandRefill) = true ∧
      (s.step i).busy = some (i.evictAdr, i.refillAdr)) ∨
    (s.step i).busy = s.busy := by
  simp only [System.step]
  split
  · exact .inl rfl
  · split
    · rename_i h
      exact .inr (.inl ⟨h, rfl⟩)
    · exact .inr (.inr rfl)

/-- The controller from reset; the registers without reset hold anything. -/
def machine : Machine System SdramIn where
  start s := s.core.state = .reset ∧ s.core.commandEvictPending = false ∧
    s.core.commandRefillPending = false ∧ s.hist = [] ∧ s.busy = none
  legal := System.legal
  step := System.step

/-! ### What an edge issues -/

/-- The command issued in each state. -/
theorem cmd_clk (s : Sdram16) (i : SdramIn) : (s.clk i).pins.cmd =
    match s.state with
    | .initPrechargeall => if s.initDone then .prechargeAll else .nop
    | .initAutorefresh1 => if s.prechargeallDone then .autoRefresh else .nop
    | .initAutorefresh2 => if s.autorefreshDone then .autoRefresh else .nop
    | .initLoadmode =>
      if s.autorefreshDone then .loadMode (i.cfg0.extractLsb' 0 13) else .nop
    | .prechargeBeforeRefresh => .prechargeAll
    | .autorefresh => if s.prechargeallDone then .autoRefresh else .nop
    | .prechargeBeforeWrite =>
      if s.evictNeedsRowswitchR then .precharge (bankOf i.evictAdr) else .nop
    | .activateBeforeWrite =>
      if s.prechargeDone then .activate (bankOf i.evictAdr) (rowOf i.evictAdr) else .nop
    | .write =>
      if s.activateDone then .write (bankOf i.evictAdr) (columnOf i.evictAdr) false else .nop
    | .prechargeBeforeRead =>
      if s.refillNeedsRowswitchR then .precharge (bankOf i.refillAdr) else .nop
    | .activateBeforeRead =>
      if s.prechargeDone then .activate (bankOf i.refillAdr) (rowOf i.refillAdr) else .nop
    | .read =>
      if s.activateDone then .read (bankOf i.refillAdr) (columnOf i.refillAdr) false else .nop
    | _ => .nop := by
  fun_cases Sdram16.out s i <;>
    simp [Sdram16.clk, Sdram16.adrOut, Pins.cmd, Sdram16.out, *]

/-- `command_ack` comes with the last beat of the read burst. -/
theorem commandAck_iff (s : Sdram16) (i : SdramIn) :
    s.commandAck i = true ↔ s.state = .readburst ∧ s.burstLast = true := by
  rw [Sdram16.commandAck]
  fun_cases Sdram16.out s i <;> simp_all

/-- The states that rewrite the row tracker. -/
def Retracks (s : Sdram16) : Prop :=
  (s.state = .initPrechargeall ∧ s.initDone = true) ∨ s.state = .prechargeBeforeRefresh ∨
  ((s.state = .activateBeforeWrite ∨ s.state = .activateBeforeRead) ∧ s.prechargeDone = true)

theorem tracker_keep {s : Sdram16} (h : ¬ Retracks s) (i : SdramIn) :
    (s.clk i).active = s.active ∧ (s.clk i).openrow = s.openrow := by
  rw [Retracks] at h
  fun_cases Sdram16.out s i <;> simp_all [Sdram16.clk, Sdram16.out]

/-! ### History and row tracker -/

/-- The row tracker agrees with the history. -/
def TracksBank (s : System) (b : Bank) : Prop :=
  openRow s.hist b = if s.core.active b then some (s.core.openrow b) else none

def Tracks (s : System) : Prop := ∀ b, TracksBank s b

/-- All banks are closed. -/
def Closed (s : System) : Prop := ∀ b, openRow s.hist b = none

/-- The bank of line `a` is between PRECHARGE and ACTIVATE: closed, while its tracker entry is
    not. -/
structure Switching (s : System) (a : LineAdr) : Prop where
  bank : s.core.trackBank = bankOf a
  row : s.core.trackRow = rowOf a
  closed : openRow s.hist (bankOf a) = none
  others : ∀ b, b ≠ bankOf a → TracksBank s b

/-- The row of line `a` is open. -/
def Ready (s : System) (a : LineAdr) : Prop := openRow s.hist (bankOf a) = some (rowOf a)

/-- The commands `l` have been issued in this order. -/
def Issued (s : System) (l : List Cmd) : Prop := l.Sublist s.hist.reverse

/-- What each state of the machine says about history, tracker and outstanding command. -/
def Phase (s : System) : Prop :=
  match s.core.state with
  | .reset | .initPrechargeall => Closed s
  | .initAutorefresh1 => Closed s ∧ Tracks s ∧ Issued s [.prechargeAll]
  | .initAutorefresh2 => Closed s ∧ Tracks s ∧ Issued s [.prechargeAll, .autoRefresh]
  | .initLoadmode => Closed s ∧ Tracks s ∧ Issued s [.prechargeAll, .autoRefresh, .autoRefresh]
  | .idle | .prechargeBeforeRefresh | .waitRefresh => Tracks s ∧ Initialized s.hist
  | .autorefresh => Closed s ∧ Tracks s ∧ Initialized s.hist
  | .prechargeBeforeWrite => Tracks s ∧ Initialized s.hist ∧ ∃ e r, s.busy = some (e, r) ∧
      (s.core.evictNeedsRowswitchR = false → Ready s e)
  | .activateBeforeWrite => Initialized s.hist ∧ ∃ e r, s.busy = some (e, r) ∧ Switching s e
  | .write => Tracks s ∧ Initialized s.hist ∧ ∃ e r, s.busy = some (e, r) ∧ Ready s e
  | .prechargeBeforeRead => Tracks s ∧ Initialized s.hist ∧ ∃ e r, s.busy = some (e, r) ∧
      (s.core.refillNeedsRowswitchR = false → Ready s r)
  | .activateBeforeRead => Initialized s.hist ∧ ∃ e r, s.busy = some (e, r) ∧ Switching s r
  | .read => Tracks s ∧ Initialized s.hist ∧ ∃ e r, s.busy = some (e, r) ∧ Ready s r
  | .writeburst | .readreg1 | .readreg2 | .readreg3 | .readfirst | .readburst =>
      Tracks s ∧ Initialized s.hist ∧ ∃ e r, s.busy = some (e, r)

/-- The invariant: a pending flag belongs to the outstanding command. -/
structure Inv (s : System) : Prop where
  phase : Phase s
  evictPending : s.core.commandEvictPending = true → s.busy ≠ none
  refillPending : s.core.commandRefillPending = true → s.busy ≠ none

section Step

variable {s : System} {i : SdramIn}

theorem Initialized.step (h : Initialized s.hist) : Initialized (s.step i).hist := by
  obtain ⟨mode, hm⟩ := h
  refine ⟨mode, hm.trans ?_⟩
  simp [System.step]

theorem Issued.step {l : List Cmd} (h : Issued s l) : Issued (s.step i) l := by
  refine List.Sublist.trans h ?_
  simp [System.step]

/-- A command issued on the edge extends what has been issued. -/
theorem Issued.snoc {l : List Cmd} {c : Cmd} (h : Issued s l) (hc : s.issued i = c) :
    Issued (s.step i) (l ++ [c]) := by
  rw [Issued, System.step, List.reverse_cons, hc]
  exact List.Sublist.append h (List.Sublist.refl _)

theorem Tracks.keep (ht : Tracks s) (hc : openRow (s.issued i :: s.hist) = openRow s.hist)
    (ha : (s.core.clk i).active = s.core.active) (hr : (s.core.clk i).openrow = s.core.openrow) :
    Tracks (s.step i) := by
  intro b
  rw [TracksBank, System.step, hc, ha, hr]
  exact ht b

theorem Closed.keep (hb : Closed s) (hc : openRow (s.issued i :: s.hist) = openRow s.hist) :
    Closed (s.step i) := by
  intro b
  rw [System.step, hc]
  exact hb b

theorem Ready.keep {a : LineAdr} (hr : Ready s a)
    (hc : openRow (s.issued i :: s.hist) = openRow s.hist) : Ready (s.step i) a := by
  rw [Ready, System.step, hc]
  exact hr

/-- A registered comparison without row switch means that the row is open. -/
theorem Tracks.ready (ht : Tracks s) {a : LineAdr} (h : s.core.needsRowswitch a = false) :
    Ready s a := by
  simp only [Sdram16.needsRowswitch, Bool.or_eq_false_iff, decide_eq_false_iff_not,
    not_not, Bool.not_eq_false'] at h
  rw [Ready, ht, if_pos h.2, h.1]

theorem busy_keep {e r : LineAdr} (hb : s.busy = some (e, r)) (hl : s.legal i)
    (ha : s.core.commandAck i = false) : (s.step i).busy = some (e, r) := by
  obtain ⟨h1, h2, -, -⟩ := hl.2 (e, r) hb
  simp [System.step, ha, h1, h2, hb]

/-- A command taken up in IDLE is outstanding with the addresses on the port. -/
theorem busy_accept (hi : Inv s) (hl : s.legal i) (ha : s.core.commandAck i = false)
    (hc : (i.commandEvict || s.core.commandEvictPending) = true ∨
      (i.commandRefill || s.core.commandRefillPending) = true) :
    (s.step i).busy = some (i.evictAdr, i.refillAdr) := by
  cases hb : s.busy with
  | some p =>
    obtain ⟨e, r⟩ := p
    obtain ⟨-, -, rfl, rfl⟩ := hl.2 (e, r) hb
    exact busy_keep hb hl ha
  | none =>
    have h1 : s.core.commandEvictPending = false := by
      by_contra h
      exact hi.evictPending (by simpa using h) hb
    have h2 : s.core.commandRefillPending = false := by
      by_contra h
      exact hi.refillPending (by simpa using h) hb
    simp only [h1, h2, Bool.or_false] at hc
    have hp : (i.commandEvict || i.commandRefill) = true := by simpa using hc
    simp only [System.step, ha, hp, if_true]
    rfl

theorem commandAck_false (h : s.core.state ≠ .readburst) : s.core.commandAck i = false := by
  rw [Bool.eq_false_iff]
  exact fun ha => h ((commandAck_iff _ _).1 ha).1

/-- An edge that rewrites no tracker entry and issues no PRECHARGE or ACTIVATE. -/
theorem Tracks.frame (ht : Tracks s) (hn : ¬ Retracks s.core)
    (hc : openRow (s.issued i :: s.hist) = openRow s.hist) : Tracks (s.step i) :=
  ht.keep hc (tracker_keep hn i).1 (tracker_keep hn i).2

/-- The banks stay as they are unless PRECHARGE or ACTIVATE is issued. -/
def Still (s : System) (i : SdramIn) : Prop := openRow (s.issued i :: s.hist) = openRow s.hist

theorem still_of_nop (h : s.issued i = .nop) : Still s i := by
  rw [Still, h]; rfl

theorem still_of_autoRefresh (h : s.issued i = .autoRefresh) : Still s i := by
  rw [Still, h]; rfl

theorem closed_of_prechargeAll (h : s.issued i = .prechargeAll) : Closed (s.step i) := by
  intro b
  simp [System.step, h, openRow]

/-- After PRECHARGE ALL the cleared tracker agrees with the history. -/
theorem tracks_of_prechargeAll (h : s.issued i = .prechargeAll)
    (ha : (s.core.clk i).active = fun _ => false) : Tracks (s.step i) := by
  intro b
  have hb := closed_of_prechargeAll h b
  rw [TracksBank, hb, System.step, ha]
  simp

/-! Initialization -/

theorem phase_reset (hst : s.core.state = .reset) (hi : Inv s) : Phase (s.step i) := by
  have hp : Closed s := by simpa [Phase, hst] using hi.phase
  have hst' : (s.step i).core.state = .initPrechargeall := by
    simp [System.step, Sdram16.state_clk, hst]
  rw [Phase, hst']
  exact hp.keep (still_of_nop (by simp [System.issued, cmd_clk, hst]))

theorem phase_initPrechargeall (hst : s.core.state = .initPrechargeall) (hi : Inv s) :
    Phase (s.step i) := by
  have hp : Closed s := by simpa [Phase, hst] using hi.phase
  cases hd : s.core.initDone with
  | false =>
    have hst' : (s.step i).core.state = .initPrechargeall := by
      simp [System.step, Sdram16.state_clk, hst, hd]
    rw [Phase, hst']
    exact hp.keep (still_of_nop (by simp [System.issued, cmd_clk, hst, hd]))
  | true =>
    have hc : s.issued i = .prechargeAll := by simp [System.issued, cmd_clk, hst, hd]
    have hst' : (s.step i).core.state = .initAutorefresh1 := by
      simp [System.step, Sdram16.state_clk, hst, hd]
    rw [Phase, hst']
    refine ⟨closed_of_prechargeAll hc, tracks_of_prechargeAll hc ?_, ?_⟩
    · simp [Sdram16.clk, Sdram16.out, hst, hd]
    · simp [Issued, System.step, hc]

theorem phase_initAutorefresh1 (hst : s.core.state = .initAutorefresh1) (hi : Inv s) :
    Phase (s.step i) := by
  obtain ⟨hcl, ht, hs⟩ : Closed s ∧ Tracks s ∧ Issued s [.prechargeAll] := by
    simpa [Phase, hst] using hi.phase
  have hn : ¬ Retracks s.core := by simp [Retracks, hst]
  cases hd : s.core.prechargeallDone with
  | false =>
    have hc : Still s i := still_of_nop (by simp [System.issued, cmd_clk, hst, hd])
    have hst' : (s.step i).core.state = .initAutorefresh1 := by
      simp [System.step, Sdram16.state_clk, hst, hd]
    rw [Phase, hst']
    exact ⟨hcl.keep hc, ht.frame hn hc, hs.step⟩
  | true =>
    have hc : s.issued i = .autoRefresh := by simp [System.issued, cmd_clk, hst, hd]
    have hst' : (s.step i).core.state = .initAutorefresh2 := by
      simp [System.step, Sdram16.state_clk, hst, hd]
    rw [Phase, hst']
    exact ⟨hcl.keep (still_of_autoRefresh hc), ht.frame hn (still_of_autoRefresh hc), hs.snoc hc⟩

theorem phase_initAutorefresh2 (hst : s.core.state = .initAutorefresh2) (hi : Inv s) :
    Phase (s.step i) := by
  obtain ⟨hcl, ht, hs⟩ : Closed s ∧ Tracks s ∧ Issued s [.prechargeAll, .autoRefresh] := by
    simpa [Phase, hst] using hi.phase
  have hn : ¬ Retracks s.core := by simp [Retracks, hst]
  cases hd : s.core.autorefreshDone with
  | false =>
    have hc : Still s i := still_of_nop (by simp [System.issued, cmd_clk, hst, hd])
    have hst' : (s.step i).core.state = .initAutorefresh2 := by
      simp [System.step, Sdram16.state_clk, hst, hd]
    rw [Phase, hst']
    exact ⟨hcl.keep hc, ht.frame hn hc, hs.step⟩
  | true =>
    have hc : s.issued i = .autoRefresh := by simp [System.issued, cmd_clk, hst, hd]
    have hst' : (s.step i).core.state = .initLoadmode := by
      simp [System.step, Sdram16.state_clk, hst, hd]
    rw [Phase, hst']
    exact ⟨hcl.keep (still_of_autoRefresh hc), ht.frame hn (still_of_autoRefresh hc), hs.snoc hc⟩

theorem phase_initLoadmode (hst : s.core.state = .initLoadmode) (hi : Inv s) :
    Phase (s.step i) := by
  obtain ⟨hcl, ht, hs⟩ : Closed s ∧ Tracks s ∧
      Issued s [.prechargeAll, .autoRefresh, .autoRefresh] := by
    simpa [Phase, hst] using hi.phase
  have hn : ¬ Retracks s.core := by simp [Retracks, hst]
  cases hd : s.core.autorefreshDone with
  | false =>
    have hc : Still s i := still_of_nop (by simp [System.issued, cmd_clk, hst, hd])
    have hst' : (s.step i).core.state = .initLoadmode := by
      simp [System.step, Sdram16.state_clk, hst, hd]
    rw [Phase, hst']
    exact ⟨hcl.keep hc, ht.frame hn hc, hs.step⟩
  | true =>
    have hc : s.issued i = .loadMode (i.cfg0.extractLsb' 0 13) := by
      simp [System.issued, cmd_clk, hst, hd]
    have hst' : (s.step i).core.state = .idle := by
      simp [System.step, Sdram16.state_clk, hst, hd]
    rw [Phase, hst']
    exact ⟨ht.frame hn (by rw [hc]; rfl), _, hs.snoc hc⟩

/-! Refresh -/

theorem phase_prechargeBeforeRefresh (hst : s.core.state = .prechargeBeforeRefresh) (hi : Inv s) :
    Phase (s.step i) := by
  obtain ⟨-, hin⟩ : Tracks s ∧ Initialized s.hist := by simpa [Phase, hst] using hi.phase
  have hc : s.issued i = .prechargeAll := by simp [System.issued, cmd_clk, hst]
  have hst' : (s.step i).core.state = .autorefresh := by
    simp [System.step, Sdram16.state_clk, hst]
  rw [Phase, hst']
  refine ⟨closed_of_prechargeAll hc, tracks_of_prechargeAll hc ?_, hin.step⟩
  simp [Sdram16.clk, Sdram16.out, hst]

theorem phase_autorefresh (hst : s.core.state = .autorefresh) (hi : Inv s) :
    Phase (s.step i) := by
  obtain ⟨hcl, ht, hin⟩ : Closed s ∧ Tracks s ∧ Initialized s.hist := by
    simpa [Phase, hst] using hi.phase
  have hn : ¬ Retracks s.core := by simp [Retracks, hst]
  cases hd : s.core.prechargeallDone with
  | false =>
    have hc : Still s i := still_of_nop (by simp [System.issued, cmd_clk, hst, hd])
    have hst' : (s.step i).core.state = .autorefresh := by
      simp [System.step, Sdram16.state_clk, hst, hd]
    rw [Phase, hst']
    exact ⟨hcl.keep hc, ht.frame hn hc, hin.step⟩
  | true =>
    have hc : Still s i := still_of_autoRefresh (by simp [System.issued, cmd_clk, hst, hd])
    have hst' : (s.step i).core.state = .waitRefresh := by
      simp [System.step, Sdram16.state_clk, hst, hd]
    rw [Phase, hst']
    exact ⟨ht.frame hn hc, hin.step⟩

theorem phase_waitRefresh (hst : s.core.state = .waitRefresh) (hi : Inv s) :
    Phase (s.step i) := by
  obtain ⟨ht, hin⟩ : Tracks s ∧ Initialized s.hist := by simpa [Phase, hst] using hi.phase
  have hn : ¬ Retracks s.core := by simp [Retracks, hst]
  have hc : Still s i := still_of_nop (by simp [System.issued, cmd_clk, hst])
  have hst' : (s.step i).core.state = .idle ∨ (s.step i).core.state = .waitRefresh := by
    cases hd : s.core.autorefreshDone <;> simp [System.step, Sdram16.state_clk, hst, hd]
  rw [Phase]
  rcases hst' with hst' | hst' <;> rw [hst'] <;> exact ⟨ht.frame hn hc, hin.step⟩

/-! Row switch: PRECHARGE of the bank, then ACTIVATE -/

theorem Tracks.precharge {a : LineAdr} (ht : Tracks s) (hn : ¬ Retracks s.core)
    (hc : s.issued i = .precharge (bankOf a)) (hb : (s.core.clk i).trackBank = bankOf a)
    (hr : (s.core.clk i).trackRow = rowOf a) : Switching (s.step i) a := by
  have hk := tracker_keep hn i
  refine ⟨hb, hr, by simp [System.step, hc, openRow], fun b hne => ?_⟩
  rw [TracksBank, System.step, hc, hk.1, hk.2, openRow, if_neg hne]
  exact ht b

theorem Switching.wait {a : LineAdr} (hs : Switching s a) (hn : ¬ Retracks s.core)
    (hc : Still s i) (hb : (s.core.clk i).trackBank = s.core.trackBank)
    (hr : (s.core.clk i).trackRow = s.core.trackRow) : Switching (s.step i) a := by
  have hk := tracker_keep hn i
  rw [Still] at hc
  refine ⟨hb.trans hs.bank, hr.trans hs.row, ?_, fun b hne => ?_⟩
  · rw [System.step, hc]; exact hs.closed
  · rw [TracksBank, System.step, hc, hk.1, hk.2]; exact hs.others b hne

theorem Switching.activate {a : LineAdr} (hs : Switching s a)
    (hc : s.issued i = .activate (bankOf a) (rowOf a))
    (ha : (s.core.clk i).active = Function.update s.core.active s.core.trackBank true)
    (hr : (s.core.clk i).openrow =
      Function.update s.core.openrow s.core.trackBank s.core.trackRow) :
    Tracks (s.step i) ∧ Ready (s.step i) a := by
  refine ⟨fun b => ?_, by simp [Ready, System.step, hc, openRow]⟩
  rw [TracksBank, System.step, hc, ha, hr, hs.bank, hs.row, openRow]
  by_cases hb : b = bankOf a
  · subst hb; simp
  · have ho := hs.others b hb
    rw [TracksBank] at ho
    simpa [hb] using ho

/-! IDLE and the two halves of a command -/

theorem phase_idle (hst : s.core.state = .idle) (hi : Inv s) (hl : s.legal i) :
    Phase (s.step i) := by
  obtain ⟨ht, hin⟩ : Tracks s ∧ Initialized s.hist := by simpa [Phase, hst] using hi.phase
  have hn : ¬ Retracks s.core := by simp [Retracks, hst]
  have hc : Still s i := still_of_nop (by simp [System.issued, cmd_clk, hst])
  have ha : s.core.commandAck i = false := commandAck_false (by simp [hst])
  cases h1 : s.core.needsRefresh with
  | true =>
    have hst' : (s.step i).core.state = .prechargeBeforeRefresh := by
      simp [System.step, Sdram16.state_clk, hst, h1]
    rw [Phase, hst']
    exact ⟨ht.frame hn hc, hin.step⟩
  | false =>
    cases h2 : (i.commandEvict || s.core.commandEvictPending) with
    | true =>
      have hst' : (s.step i).core.state = .prechargeBeforeWrite := by
        simp [System.step, Sdram16.state_clk, hst, h1, h2]
      rw [Phase, hst']
      exact ⟨ht.frame hn hc, hin.step, _, _, busy_accept hi hl ha (.inl h2),
        fun hw => (ht.ready hw).keep hc⟩
    | false =>
      cases h3 : (i.commandRefill || s.core.commandRefillPending) with
      | true =>
        have hst' : (s.step i).core.state = .prechargeBeforeRead := by
          simp [System.step, Sdram16.state_clk, hst, h1, h2, h3]
        rw [Phase, hst']
        exact ⟨ht.frame hn hc, hin.step, _, _, busy_accept hi hl ha (.inr h3),
          fun hw => (ht.ready hw).keep hc⟩
      | false =>
        have hst' : (s.step i).core.state = .idle := by
          simp [System.step, Sdram16.state_clk, hst, h1, h2, h3]
        rw [Phase, hst']
        exact ⟨ht.frame hn hc, hin.step⟩

/-- The halves of a command: a line is written back, and a line is read. -/
inductive Half where
  | evict | refill

namespace Half

def precharging : Half → SdramState
  | evict => .prechargeBeforeWrite
  | refill => .prechargeBeforeRead

def activating : Half → SdramState
  | evict => .activateBeforeWrite
  | refill => .activateBeforeRead

def transferring : Half → SdramState
  | evict => .write
  | refill => .read

/-- The state after the command of the transfer. -/
def bursting : Half → SdramState
  | evict => .writeburst
  | refill => .readreg1

/-- The line of a half, of the two of a command. -/
def line : Half → LineAdr × LineAdr → LineAdr
  | evict, p => p.1
  | refill, p => p.2

def port (h : Half) (i : SdramIn) : LineAdr := h.line (i.evictAdr, i.refillAdr)

/-- The registered comparison that asks for a row switch. -/
def switches : Half → Sdram16 → Bool
  | evict, s => s.evictNeedsRowswitchR
  | refill, s => s.refillNeedsRowswitchR

variable {h : Half}

theorem phase_precharging_iff (hst : s.core.state = h.precharging) :
    Phase s ↔ Tracks s ∧ Initialized s.hist ∧ ∃ e r, s.busy = some (e, r) ∧
      (h.switches s.core = false → Ready s (h.line (e, r))) := by
  rw [Phase, hst]
  cases h <;> rfl

theorem phase_activating_iff (hst : s.core.state = h.activating) :
    Phase s ↔ Initialized s.hist ∧ ∃ e r, s.busy = some (e, r) ∧ Switching s (h.line (e, r)) := by
  rw [Phase, hst]
  cases h <;> rfl

theorem phase_transferring_iff (hst : s.core.state = h.transferring) :
    Phase s ↔ Tracks s ∧ Initialized s.hist ∧ ∃ e r, s.busy = some (e, r) ∧
      Ready s (h.line (e, r)) := by
  rw [Phase, hst]
  cases h <;> rfl

theorem phase_bursting_iff (hst : s.core.state = h.bursting) :
    Phase s ↔ Tracks s ∧ Initialized s.hist ∧ ∃ e r, s.busy = some (e, r) := by
  rw [Phase, hst]
  cases h <;> rfl

/-- The first state of a half precharges the bank if another row is open in it. -/
theorem phase_precharging (hst : s.core.state = h.precharging) (hi : Inv s) (hl : s.legal i) :
    Phase (s.step i) := by
  obtain ⟨ht, hin, e, r, hb, hr⟩ := (phase_precharging_iff hst).1 hi.phase
  have hn : ¬ Retracks s.core := by cases h <;> simp [Retracks, hst, precharging]
  have hb' := busy_keep hb hl (commandAck_false (by cases h <;> simp [hst, precharging]))
  have hcmd : s.issued i =
      if h.switches s.core then .precharge (bankOf (h.port i)) else .nop := by
    rw [System.issued, cmd_clk, hst]
    cases h <;> rfl
  have hnext : (s.step i).core.state =
      if h.switches s.core then h.activating else h.transferring := by
    rw [System.step, Sdram16.state_clk, hst]
    cases h <;> rfl
  obtain ⟨-, -, rfl, rfl⟩ := hl.2 (e, r) hb
  cases hd : h.switches s.core with
  | false =>
    rw [hd] at hcmd hnext
    have hc : Still s i := still_of_nop hcmd
    exact (phase_transferring_iff hnext).2
      ⟨ht.frame hn hc, hin.step, _, _, hb', (hr hd).keep hc⟩
  | true =>
    rw [hd] at hcmd hnext
    refine (phase_activating_iff hnext).2 ⟨hin.step, _, _, hb', ht.precharge hn hcmd ?_ ?_⟩ <;>
      cases h <;> simp_all [Sdram16.clk, Sdram16.out, precharging, switches, port, line]

/-- The second state waits for the precharge and opens the row. -/
theorem phase_activating (hst : s.core.state = h.activating) (hi : Inv s) (hl : s.legal i) :
    Phase (s.step i) := by
  obtain ⟨hin, e, r, hb, hs⟩ := (phase_activating_iff hst).1 hi.phase
  have hb' := busy_keep hb hl (commandAck_false (by cases h <;> simp [hst, activating]))
  have hcmd : s.issued i = if s.core.prechargeDone then
      .activate (bankOf (h.port i)) (rowOf (h.port i)) else .nop := by
    rw [System.issued, cmd_clk, hst]
    cases h <;> rfl
  have hnext : (s.step i).core.state =
      if s.core.prechargeDone then h.transferring else h.activating := by
    rw [System.step, Sdram16.state_clk, hst]
    cases h <;> rfl
  obtain ⟨-, -, rfl, rfl⟩ := hl.2 (e, r) hb
  cases hd : s.core.prechargeDone with
  | false =>
    rw [hd] at hcmd hnext
    refine (phase_activating_iff hnext).2
      ⟨hin.step, _, _, hb', hs.wait ?_ (still_of_nop hcmd) ?_ ?_⟩
    · cases h <;> simp [Retracks, hst, hd, activating]
    all_goals cases h <;> simp [Sdram16.clk, Sdram16.out, hst, hd, activating]
  | true =>
    rw [hd] at hcmd hnext
    obtain ⟨ht, hr⟩ := hs.activate hcmd
      (by cases h <;> simp [Sdram16.clk, Sdram16.out, hst, hd, activating])
      (by cases h <;> simp [Sdram16.clk, Sdram16.out, hst, hd, activating])
    exact (phase_transferring_iff hnext).2 ⟨ht, hin.step, _, _, hb', hr⟩

/-- The third state waits for the row and starts the burst. -/
theorem phase_transferring (hst : s.core.state = h.transferring) (hi : Inv s) (hl : s.legal i) :
    Phase (s.step i) := by
  obtain ⟨ht, hin, e, r, hb, hr⟩ := (phase_transferring_iff hst).1 hi.phase
  have hn : ¬ Retracks s.core := by cases h <;> simp [Retracks, hst, transferring]
  have hb' := busy_keep hb hl (commandAck_false (by cases h <;> simp [hst, transferring]))
  have hc : Still s i := by
    rw [Still, System.issued, cmd_clk, hst]
    cases h <;> dsimp only [transferring] <;> split <;> rfl
  have hnext : (s.step i).core.state =
      if s.core.activateDone then h.bursting else h.transferring := by
    rw [System.step, Sdram16.state_clk, hst]
    cases h <;> rfl
  cases hd : s.core.activateDone with
  | false =>
    rw [hd] at hnext
    exact (phase_transferring_iff hnext).2 ⟨ht.frame hn hc, hin.step, _, _, hb', hr.keep hc⟩
  | true =>
    rw [hd] at hnext
    exact (phase_bursting_iff hnext).2 ⟨ht.frame hn hc, hin.step, _, _, hb'⟩

end Half

/-- The states of a burst. -/
def Bursting (s : System) : Prop :=
  s.core.state = .writeburst ∨ s.core.state = .readreg1 ∨ s.core.state = .readreg2 ∨
    s.core.state = .readreg3 ∨ s.core.state = .readfirst ∨ s.core.state = .readburst

theorem Bursting.phase_iff (h : Bursting s) :
    Phase s ↔ Tracks s ∧ Initialized s.hist ∧ ∃ e r, s.busy = some (e, r) := by
  rw [Phase]
  rcases h with h | h | h | h | h | h <;> simp [h]

/-- A burst goes on, hands over from the write to the read, or ends with the acknowledge. -/
theorem Bursting.next (h : Bursting s) : Bursting (s.step i) ∨
    (s.step i).core.state = .prechargeBeforeRead ∨
    ((s.step i).core.state = .idle ∧ s.core.commandAck i = true) := by
  have hs' : (s.step i).core.state = (s.core.clk i).state := rfl
  rw [Bursting, hs', Sdram16.state_clk]
  rcases h with h | h | h | h | h | h
  · cases hd : s.core.burstFinished <;> simp [h]
  · simp [h]
  · simp [h]
  · simp [h]
  · simp [h]
  · cases hd : s.core.burstLast with
    | false => simp [h]
    | true => exact .inr (.inr ⟨by simp [h], (commandAck_iff _ _).2 ⟨h, hd⟩⟩)

theorem Bursting.still (h : Bursting s) : ¬ Retracks s.core ∧ Still s i := by
  refine ⟨?_, still_of_nop ?_⟩
  · rcases h with h | h | h | h | h | h <;> simp [Retracks, h]
  · rcases h with h | h | h | h | h | h <;> simp [System.issued, cmd_clk, h]

/-- The bursts issue nothing and keep the command until its acknowledge. -/
theorem phase_burst (hst : Bursting s) (hi : Inv s) (hl : s.legal i) : Phase (s.step i) := by
  obtain ⟨ht, hin, e, r, hb⟩ := hst.phase_iff.1 hi.phase
  obtain ⟨hn, hc⟩ := hst.still (i := i)
  have ht' := ht.frame hn hc
  cases ha : s.core.commandAck i with
  | true =>
    obtain ⟨h1, h2⟩ := (commandAck_iff _ _).1 ha
    have hst' : (s.step i).core.state = .idle := by
      simp [System.step, Sdram16.state_clk, h1, h2]
    rw [Phase, hst']
    exact ⟨ht', hin.step⟩
  | false =>
    have hb' := busy_keep hb hl ha
    obtain ⟨-, -, rfl, rfl⟩ := hl.2 (e, r) hb
    rcases hst.next (i := i) with hst' | hst' | ⟨-, ha'⟩
    · exact hst'.phase_iff.2 ⟨ht', hin.step, _, _, hb'⟩
    · -- the refill half compares with the tracker of this cycle
      rw [Phase, hst']
      exact ⟨ht', hin.step, _, _, hb', fun hw => (ht.ready hw).keep hc⟩
    · cases ha.symm.trans ha'

theorem busy_ne_none (ha : s.core.commandAck i = false)
    (h : (i.commandEvict || i.commandRefill) = true ∨ s.busy ≠ none) : (s.step i).busy ≠ none := by
  cases hp : (i.commandEvict || i.commandRefill) with
  | true => simp [System.step, ha, hp]
  | false =>
    have hb : s.busy ≠ none := h.resolve_left (by simp [hp])
    simpa [System.step, ha, hp] using hb

/-- STEP: every edge keeps the invariant. -/
theorem inv_step (hi : Inv s) (hl : s.legal i) : Inv (s.step i) := by
  refine ⟨?_, fun hp => ?_, fun hp => ?_⟩
  · cases hst : s.core.state with
    | reset => exact phase_reset hst hi
    | initPrechargeall => exact phase_initPrechargeall hst hi
    | initAutorefresh1 => exact phase_initAutorefresh1 hst hi
    | initAutorefresh2 => exact phase_initAutorefresh2 hst hi
    | initLoadmode => exact phase_initLoadmode hst hi
    | idle => exact phase_idle hst hi hl
    | prechargeBeforeRefresh => exact phase_prechargeBeforeRefresh hst hi
    | autorefresh => exact phase_autorefresh hst hi
    | waitRefresh => exact phase_waitRefresh hst hi
    | prechargeBeforeWrite => exact Half.phase_precharging (h := .evict) hst hi hl
    | activateBeforeWrite => exact Half.phase_activating (h := .evict) hst hi hl
    | write => exact Half.phase_transferring (h := .evict) hst hi hl
    | prechargeBeforeRead => exact Half.phase_precharging (h := .refill) hst hi hl
    | activateBeforeRead => exact Half.phase_activating (h := .refill) hst hi hl
    | read => exact Half.phase_transferring (h := .refill) hst hi hl
    | writeburst | readreg1 | readreg2 | readreg3 | readfirst | readburst =>
      exact phase_burst (by simp [Bursting, hst]) hi hl
  · cases ha : s.core.commandAck i with
    | true => simp [System.step, Sdram16.clk, show (s.core.out i).commandAck = true from ha] at hp
    | false =>
      refine busy_ne_none ha ?_
      have hp' : i.commandEvict = true ∨ s.core.commandEvictPending = true := by
        simpa [System.step, Sdram16.clk, show (s.core.out i).commandAck = false from ha] using hp
      exact hp'.imp (fun h => by simp [h]) hi.evictPending
  · cases ha : s.core.commandAck i with
    | true => simp [System.step, Sdram16.clk, show (s.core.out i).commandAck = true from ha] at hp
    | false =>
      refine busy_ne_none ha ?_
      have hp' : i.commandRefill = true ∨ s.core.commandRefillPending = true := by
        simpa [System.step, Sdram16.clk, show (s.core.out i).commandAck = false from ha] using hp
      exact hp'.imp (fun h => by simp [h]) hi.refillPending

end Step

theorem inv_start {s : System} (h : machine.start s) : Inv s := by
  obtain ⟨hst, h1, h2, hh, -⟩ := h
  refine ⟨?_, by simp [h1], by simp [h2]⟩
  rw [Phase, hst]
  intro b
  rw [hh]; rfl

/-- RUN: the invariant holds in every reachable state. -/
theorem inv_reachable {s : System} (hs : machine.Reachable s) : Inv s :=
  hs.invariant (fun _ h => inv_start h) (fun _ _ hi hl => inv_step hi hl)

/-! ### Legality -/

/-- What has to hold when a command is issued: the open rows are those of the history before it. -/
def Permitted (s : System) (i : SdramIn) : Cmd → Prop
  | .read b _ _ => b = bankOf i.refillAdr ∧ openRow s.hist b = some (rowOf i.refillAdr) ∧
      Initialized s.hist
  | .write b _ _ => b = bankOf i.evictAdr ∧ openRow s.hist b = some (rowOf i.evictAdr) ∧
      Initialized s.hist
  | .activate b _ => openRow s.hist b = none ∧ Initialized s.hist
  | .autoRefresh | .loadMode _ => ∀ b, openRow s.hist b = none
  | _ => True

/-- LEGALITY: in every run every issued command is permitted. No READ or WRITE goes to a bank whose
    open row is not the row of `refill_adr` or `evict_adr`, no ACTIVATE to an open bank, no AUTO
    REFRESH or LOAD MODE while a bank is open, and no READ, WRITE or ACTIVATE comes before the
    initial PRECHARGE ALL, two AUTO REFRESH and LOAD MODE. -/
theorem issued_permitted {s : System} (hs : machine.Reachable s) {i : SdramIn} (hl : s.legal i) :
    Permitted s i (s.issued i) := by
  have hp := (inv_reachable hs).phase
  rw [Phase] at hp
  rw [System.issued, cmd_clk]
  cases hst : s.core.state <;> rw [hst] at hp <;> try exact trivial
  case initPrechargeall => simp only; split <;> exact trivial
  case initAutorefresh1 => simp only; split; exacts [hp.1, trivial]
  case initAutorefresh2 => simp only; split; exacts [hp.1, trivial]
  case initLoadmode => simp only; split; exacts [hp.1, trivial]
  case autorefresh => simp only; split; exacts [hp.1, trivial]
  case prechargeBeforeWrite => simp only; split <;> exact trivial
  case prechargeBeforeRead => simp only; split <;> exact trivial
  case activateBeforeWrite =>
    obtain ⟨hin, e, r, hb, hsw⟩ := hp
    obtain ⟨-, -, rfl, rfl⟩ := hl.2 (e, r) hb
    simp only
    split
    exacts [⟨hsw.closed, hin⟩, trivial]
  case activateBeforeRead =>
    obtain ⟨hin, e, r, hb, hsw⟩ := hp
    obtain ⟨-, -, rfl, rfl⟩ := hl.2 (e, r) hb
    simp only
    split
    exacts [⟨hsw.closed, hin⟩, trivial]
  case write =>
    obtain ⟨-, hin, e, r, hb, hr⟩ := hp
    obtain ⟨-, -, rfl, rfl⟩ := hl.2 (e, r) hb
    simp only
    split
    exacts [⟨rfl, hr, hin⟩, trivial]
  case read =>
    obtain ⟨-, hin, e, r, hb, hr⟩ := hp
    obtain ⟨-, -, rfl, rfl⟩ := hl.2 (e, r) hb
    simp only
    split
    exacts [⟨rfl, hr, hin⟩, trivial]

/-- A controller in reset. -/
def inReset : System where
  core :=
    { state := .reset
      initCounter := 0, prechargeallCounter := 0, prechargeCounter := 0, autorefreshCounter := 0
      activateCounter := 0, refreshCounter := 0
      active := fun _ => true, openrow := fun _ => 0, trackRow := 0, trackBank := 0
      evictNeedsRowswitchR := false, refillNeedsRowswitchR := false
      burstCounter := 0, cacheAdrMsb := 0
      commandEvictPending := false, commandRefillPending := false
      pins := ⟨false, true, true, true, true, true, 0, 0, 0, true⟩
      dqIn := 0 }
  hist := []
  busy := none

/-- A cycle that may start the refill of a line, without wait cycles and with a refresh period. -/
def refillIn (pulse : Bool) : SdramIn :=
  { commandEvict := false, commandRefill := pulse, evictAdr := 0, refillAdr := 0x1234
    cfg0 := 0, cfg1 := 0x01000000, cacheDatI := 0, dqInPort := 0 }

/-- Initialization and a refill up to its READ. -/
def refillRun : List SdramIn :=
  [false, false, false, false, false, true, false, false].map refillIn

theorem issued_permitted_refill :
    (refillRun.foldl System.step inReset).issued (refillIn false) = .read 0 0x068 false ∧
    Permitted (refillRun.foldl System.step inReset) (refillIn false)
      ((refillRun.foldl System.step inReset).issued (refillIn false)) := by
  refine ⟨by decide,
    issued_permitted (Machine.Reachable.foldl (.start ?_) ?_) (by decide)⟩
  · exact ⟨rfl, rfl, rfl, rfl, rfl⟩
  · simp only [refillRun, List.map, Machine.Legal, machine]
    decide

end DsdOrsoc.Yadmc.Legality
