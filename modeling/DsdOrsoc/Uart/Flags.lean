import DsdOrsoc.Uart.Regs

/-! Two flags that the register file keeps by events beside the count of the receive FIFO. The
    data-ready bit is right until a byte arrives together with a pop of the empty FIFO, which the
    FIFO loses and the bit counts. The data-available interrupt is lost when a byte arrives with the
    read that clears it, or with the pop that follows, since the level then stays high without a
    rise:

        cycle          t        t+1      t+2
        fifo_read      1        .        .
        rf_pop         .        1        .
        push           .        1        .
        rf_count       trigger  trigger  trigger
        rda_int        1        1        1
        rda_int_pnd    1        0        0 ... -/

namespace DsdOrsoc.Uart
open Schemes

theorem regs_succ (R : Regs.machine.Run) (t : ℕ) : R.state (t + 1) = (R.state t).clk (R.input t) :=
  R.next t

/-! ### Data ready -/

namespace Regs

/-- A byte arrives while the empty FIFO is popped. -/
def LosesPush (s : Regs) (i : RegsIn) : Prop :=
  s.rxReset = false ∧ s.rfPushPulse i = true ∧ s.rfPop = true ∧ s.rfCount = 0

/-- The FIFO is reset, or it takes a byte. -/
def Recovers (s : Regs) (i : RegsIn) : Prop :=
  s.rxReset = true ∨ s.rfPushPulse i = true ∧ s.rfPop = false

/-- The inputs of the FIFO are quiet. -/
structure Quiet (s : Regs) (i : RegsIn) : Prop where
  push : s.rfPushPulse i = false
  pop : s.rfPop = false
  reset : s.rxReset = false

/-- INVARIANT of the data-ready bit; two pushes are never in consecutive cycles. -/
structure Ready (s : Regs) : Prop where
  lsr0R : s.lsr0R = decide (s.rfCount ≠ 0)
  lsr0D : s.lsr0D = true → s.rfPushQ = true

/-- The bit is set over the empty FIFO. -/
structure Stale (s : Regs) : Prop where
  lsr0R : s.lsr0R = true
  rfCount : s.rfCount = 0

variable {s : Regs} {i : RegsIn}

theorem Stale.not_ready (h : s.Stale) : ¬ s.lsr0R = decide (s.rfCount ≠ 0) := by
  rw [h.lsr0R, h.rfCount]
  decide

theorem clk_lsr0D (h : (s.clk i).lsr0D = true) : (s.clk i).rfPushQ = true := by
  have hl : s.lsr0 i = true := h
  rw [lsr0, rfPushPulse] at hl
  simp only [Bool.and_eq_true] at hl
  exact hl.2.1

theorem clk_lsr0R : (s.clk i).lsr0R =
    if (decide (s.rfCount = 1) && s.rfPop && !s.rfPushPulse i) || s.rxReset then false
    else s.lsr0R || (s.lsr0 i && !s.lsr0D) := rfl

theorem Ready.no_rise (h : s.Ready) (hp : s.rfPushPulse i = true) : s.lsr0D = false := by
  by_contra hd
  rw [Bool.not_eq_false] at hd
  simp [rfPushPulse, h.lsr0D hd] at hp

/-- STEP. -/
theorem Ready.clk (h : s.Ready) (hg : ¬ s.LosesPush i) : (s.clk i).Ready := by
  refine ⟨?_, clk_lsr0D⟩
  cases hr : s.rxReset with
  | true => rw [clk_rfCount_of_reset hr, clk_lsr0R, hr, Bool.or_true, if_pos rfl]; rfl
  | false =>
    rw [clk_rfCount_eq hr, clk_lsr0R, hr, h.lsr0R, lsr0]
    cases hpush : s.rfPushPulse i <;> cases hpop : s.rfPop
    · simp
    · -- the last pop clears the bit
      have hsub : ∀ c : BitVec 5, (if decide (c = 1) = true then false else decide (c ≠ 0)) =
          decide ((if 0 < c then c - 1 else c) ≠ 0) := by decide
      simpa using hsub s.rfCount
    · have hadd : ∀ c : BitVec 5, (if c < 16#5 then c + 1#5 else c) ≠ 0#5 := by decide
      by_cases h0 : s.rfCount = 0#5 <;> simp [h0, h.no_rise hpush, hadd]
    · have h0 : s.rfCount ≠ 0#5 := fun h0 => hg ⟨hr, hpush, hpop, h0⟩
      simp [h0]

/-- STEP: a lost byte sets the bit over the empty FIFO. -/
theorem Ready.clk_stale (h : s.Ready) (hb : s.LosesPush i) : (s.clk i).Stale := by
  obtain ⟨hr, hpush, hpop, h0⟩ := hb
  refine ⟨?_, ?_⟩
  · rw [clk_lsr0R, hr, lsr0, h0, hpush, hpop, h.no_rise hpush]
    simp
  · rw [clk_rfCount_eq hr, h0, hpush, hpop]

/-- STEP: reads of the empty FIFO do not clear the bit. -/
theorem Stale.clk (h : s.Stale) (hn : ¬ s.Recovers i) : (s.clk i).Stale := by
  rw [Recovers, not_or, Bool.not_eq_true] at hn
  obtain ⟨hr, hpush⟩ := hn
  refine ⟨?_, ?_⟩
  · rw [clk_lsr0R, hr, h.lsr0R, h.rfCount]
    simp
  · rw [clk_rfCount_eq hr, h.rfCount]
    cases hp : s.rfPushPulse i <;> cases hq : s.rfPop
    · rfl
    · rfl
    · exact absurd ⟨hp, hq⟩ hpush
    · rfl

/-- STEP: a reset clears the bit, and a byte that is taken makes it true. -/
theorem Stale.clk_ready (h : s.Stale) (hrec : s.Recovers i) : (s.clk i).Ready := by
  refine ⟨?_, clk_lsr0D⟩
  cases hr : s.rxReset with
  | true => rw [clk_rfCount_of_reset hr, clk_lsr0R, hr, Bool.or_true, if_pos rfl]; rfl
  | false =>
    obtain ⟨hpush, hpop⟩ := hrec.resolve_left (by simp [hr])
    rw [clk_rfCount_eq hr, clk_lsr0R, hr, h.lsr0R, h.rfCount, hpush, hpop]
    rfl

theorem LosesPush.not_recovers (h : s.LosesPush i) : ¬ s.Recovers i := by
  obtain ⟨hr, -, hpop, -⟩ := h
  simp [Recovers, hr, hpop]

theorem Quiet.not_losesPush (h : s.Quiet i) : ¬ s.LosesPush i := by simp [LosesPush, h.push]

theorem Quiet.not_recovers (h : s.Quiet i) : ¬ s.Recovers i := by
  simp [Recovers, h.push, h.reset]

end Regs

section DataReady
variable (R : Regs.machine.Run)

/-- A byte has been lost, and since then the FIFO has neither been reset nor taken a byte. -/
def Unrecovered (t : ℕ) : Prop :=
  ∃ u < t, (R.state u).LosesPush (R.input u) ∧
    ∀ v, u < v → v < t → ¬ (R.state v).Recovers (R.input v)

theorem unrecovered_succ {t : ℕ} : Unrecovered R (t + 1) ↔
    (R.state t).LosesPush (R.input t) ∨
      Unrecovered R t ∧ ¬ (R.state t).Recovers (R.input t) := by
  constructor
  · rintro ⟨u, hu, hl, hv⟩
    obtain hu | rfl := Nat.lt_succ_iff_lt_or_eq.1 hu
    · exact .inr ⟨⟨u, hu, hl, fun v h1 h2 => hv v h1 (by omega)⟩, hv t hu (by omega)⟩
    · exact .inl hl
  · rintro (hl | ⟨⟨u, hu, hl, hv⟩, ht⟩)
    · exact ⟨t, by omega, hl, fun v h1 h2 => by omega⟩
    · refine ⟨u, by omega, hl, fun v h1 h2 => ?_⟩
      obtain h2 | rfl := Nat.lt_succ_iff_lt_or_eq.1 h2
      · exact hv v h1 h2
      · exact ht

/-- RUN: the bit is stale while a loss has not been recovered from, and right otherwise. -/
theorem data_ready_run : ∀ t, (Unrecovered R t → (R.state t).Stale) ∧
    (¬ Unrecovered R t → (R.state t).Ready)
  | 0 => by
    have h0 : (R.state 0).rfCount = 0 := by rw [Regs.rfCount, R.start.fifo.1]
    refine ⟨fun ⟨u, hu, _⟩ => absurd hu (by omega), fun _ => ⟨?_, ?_⟩⟩
    · rw [R.start.lsr0.2, h0]
      rfl
    · rw [R.start.lsr0.1]
      exact fun h => absurd h Bool.false_ne_true
  | t + 1 => by
    obtain ⟨hstale, hready⟩ := data_ready_run t
    rw [regs_succ, unrecovered_succ, not_or, not_and_not_right]
    refine ⟨?_, fun ⟨hl, hrec⟩ => ?_⟩
    · rintro (hl | ⟨hu, hn⟩)
      · by_cases hu : Unrecovered R t
        · exact (hstale hu).clk hl.not_recovers
        · exact (hready hu).clk_stale hl
      · exact (hstale hu).clk hn
    · by_cases hu : Unrecovered R t
      · exact (hstale hu).clk_ready (hrec hu)
      · exact (hready hu).clk hl

theorem data_ready_at (t : ℕ) :
    (R.state t).lsr0R = decide ((R.state t).rfCount ≠ 0) ↔ ¬ Unrecovered R t :=
  ⟨fun h hu => ((data_ready_run R t).1 hu).not_ready h, fun h => ((data_ready_run R t).2 h).lsr0R⟩

/-- The data-ready bit says in every cycle of a run whether the FIFO has a byte, if and only if no
    byte arrives while the empty FIFO is popped. -/
theorem data_ready_iff (R : Regs.machine.Run) :
    (∀ t, (R.state t).lsr0R = decide ((R.state t).rfCount ≠ 0)) ↔
      ∀ t, ¬ (R.state t).LosesPush (R.input t) := by
  simp only [data_ready_at]
  constructor
  · intro h t hl
    exact h (t + 1) ((unrecovered_succ R).2 (.inl hl))
  · rintro h t ⟨u, -, hl, -⟩
    exact h u hl

variable {R}

/-- Once the FIFO inputs have been quiet for two cycles, the bit is right if and only if every byte
    lost before has been recovered from; in particular if none was lost. -/
theorem data_ready_quiet {t : ℕ} (h1 : (R.state t).Quiet (R.input t))
    (h2 : (R.state (t + 1)).Quiet (R.input (t + 1))) :
    (R.state (t + 2)).lsr0R = decide ((R.state (t + 2)).rfCount ≠ 0) ↔
      ∀ u < t, (R.state u).LosesPush (R.input u) →
        ∃ v, u < v ∧ v < t ∧ (R.state v).Recovers (R.input v) := by
  have hquiet : Unrecovered R (t + 2) ↔ Unrecovered R t := by
    simp only [unrecovered_succ, h1.not_losesPush, h2.not_losesPush, h1.not_recovers,
      h2.not_recovers, false_or, not_false_eq_true, and_true]
  rw [data_ready_at, hquiet, Unrecovered]
  push Not
  rfl

end DataReady

/-- No register access and no byte. -/
def RegsIn.idle : RegsIn := ⟨0, 0, false, false, false, 0⟩

def RegsIn.write (addr : BitVec 5) (dat : BitVec 8) : RegsIn := ⟨addr, dat, true, false, false, 0⟩

/-- A read of the receive buffer. -/
def RegsIn.readRb : RegsIn := ⟨0, 0, false, true, false, 0⟩

/-- The receiver raises `rf_push` with a byte. -/
def RegsIn.byte : RegsIn := ⟨0, 0, false, false, true, 0x208⟩

/-- The empty receive buffer is read in cycle 0, and a byte arrives in the next cycle. -/
def emptyReadRun : Regs.machine.Run :=
  .ofInput Regs.init (fun t => if t = 0 then .readRb else if t = 1 then .byte else .idle)
    Regs.reset_init fun _ => trivial

/-- The FIFO is empty and all its inputs have been quiet since cycle 2, but the bit is set. -/
theorem data_ready_over_empty :
    (∀ t, 2 ≤ t → (emptyReadRun.state t).rfPushPulse (emptyReadRun.input t) = false) ∧
    (∀ t, 2 ≤ t → t < 4 → (emptyReadRun.state t).rfPop = false ∧
      (emptyReadRun.state t).rxReset = false) ∧
    (emptyReadRun.state 4).rfCount = 0 ∧ (emptyReadRun.state 4).lsr0R = true := by
  refine ⟨fun t ht => ?_, fun t h2 h4 => ?_, by decide, by decide⟩
  · simp [Regs.rfPushPulse, emptyReadRun, Machine.Run.ofInput, show ¬ t = 0 by omega,
      show ¬ t = 1 by omega, RegsIn.idle]
  · interval_cases t <;> decide

/-! ### Data available -/

namespace Regs

/-- A byte enters the FIFO. -/
def pushes (s : Regs) (i : RegsIn) : Bool := s.rfPushPulse i && !s.rxReset

/-- A read clears the pending flag. -/
def Clears (s : Regs) (i : RegsIn) : Prop :=
  s.rdaInt = true ∧ s.fifoRead i = true ∧ s.rfCount = s.trigger

/-- The pop after such a read is to take the level away. -/
def Closes (s : Regs) : Prop :=
  s.rdaInt = true ∧ s.rdaIntD = true ∧ s.rdaIntPnd = false ∧ s.rfPop = true ∧
    s.rfCount = s.trigger

/-- No byte arrives with a read that clears the flag or with the pop that takes the level away, and
    the trigger level is not changed in the cycle of that pop. -/
structure NoRace (s : Regs) (i : RegsIn) : Prop where
  clears : s.Clears i → s.pushes i = false
  closes : s.Closes → s.pushes i = false ∧ (s.clk i).fcr = s.fcr

/-- INVARIANT: a level that has been seen is pending, unless the pop of the clearing read is due. -/
def Armed (s : Regs) : Prop :=
  s.rdaInt = true → s.rdaIntD = true → s.rdaIntPnd = false → s.rfPop = true ∧
    s.rfCount = s.trigger

variable {s : Regs} {i : RegsIn}

theorem rdaInt_iff : s.rdaInt = true ↔ s.ier.getLsbD 0 = true ∧ s.trigger ≤ s.rfCount := by
  simp [rdaInt]

theorem trigger_pos (s : Regs) : 0 < s.trigger := by
  rw [trigger]
  generalize s.fcr = f
  revert f
  decide

/-- A pop at the trigger level takes the level away. -/
theorem clk_level_of_pop (hc : s.rfCount = s.trigger) (hpop : s.rfPop = true)
    (hp : s.pushes i = false) (hf : (s.clk i).fcr = s.fcr) : (s.clk i).rdaInt = false := by
  have htrig : (s.clk i).trigger = s.trigger := by rw [trigger, hf]; rfl
  have hpos := s.trigger_pos
  have hlt : (s.clk i).rfCount < (s.clk i).trigger := by
    rw [htrig]
    cases hr : s.rxReset with
    | true => rwa [clk_rfCount_of_reset hr]
    | false =>
      have hpulse : s.rfPushPulse i = false := by simpa [pushes, hr] using hp
      have hsub : ∀ c : BitVec 5, 0 < c → c - 1 < c := by decide
      rw [clk_rfCount_eq hr, hpulse, hpop, hc]
      simp only [if_pos hpos]
      exact hsub _ hpos
  rw [← Bool.not_eq_true, rdaInt_iff]
  exact fun h => absurd hlt (BitVec.not_lt.2 h.2)

/-- Without a clearing read the flag is kept while the interrupt is enabled. -/
theorem clk_rdaIntPnd (hint : s.rdaInt = true) (hc : ¬ s.Clears i) :
    (s.clk i).rdaIntPnd = (!s.rdaIntD || s.rdaIntPnd) := by
  have hno : (decide (s.rfCount = s.trigger) && s.fifoRead i) = false := by
    rw [← Bool.not_eq_true, Bool.and_eq_true, decide_eq_true_eq]
    exact fun h => hc ⟨hint, h.2, h.1⟩
  have hpnd : (s.clk i).rdaIntPnd =
      if decide (s.rfCount = s.trigger) && s.fifoRead i then false
      else if s.rdaIntRise then true else s.rdaIntPnd && s.ier.getLsbD 0 := rfl
  rw [hpnd, hno, rdaIntRise, hint, (rdaInt_iff.1 hint).1]
  cases s.rdaIntD <;> simp

/-- STEP. -/
theorem Armed.clk (h : s.Armed) (hn : s.NoRace i) : (s.clk i).Armed := by
  intro hint hintD hpnd
  have hlevel : s.rdaInt = true := hintD
  by_cases hclear : s.Clears i
  · have hpush := hn.clears hclear
    obtain ⟨-, hread, hc⟩ := hclear
    -- a read of the buffer does not write the trigger level
    have haddr : i.wbAddrI = 0 := by
      simp only [fifoRead, Bool.and_eq_true, decide_eq_true_eq] at hread
      exact hread.1.2
    have hf : (s.clk i).fcr = s.fcr := by simp [Regs.clk, haddr]
    cases hpop : s.rfPop with
    | true =>
      rw [clk_level_of_pop hc hpop hpush hf] at hint
      cases hint
    | false =>
      have hpop' : (s.clk i).rfPop = true := by simp [Regs.clk, hpop, hread]
      cases hr : s.rxReset with
      | true =>
        have hle := (rdaInt_iff.1 hint).2
        rw [clk_rfCount_of_reset hr] at hle
        exact absurd (s.clk i).trigger_pos (BitVec.not_lt.2 hle)
      | false =>
        have hpulse : s.rfPushPulse i = false := by simpa [pushes, hr] using hpush
        refine ⟨hpop', ?_⟩
        rw [clk_rfCount_eq hr, hpulse, hpop, trigger, hf]
        exact hc
  · -- nothing has cleared the flag, so the pop was due already
    rw [clk_rdaIntPnd hlevel hclear, Bool.or_eq_false_iff, Bool.not_eq_false'] at hpnd
    obtain ⟨hpop, hc⟩ := h hlevel hpnd.1 hpnd.2
    obtain ⟨hpush, hf⟩ := hn.closes ⟨hlevel, hpnd.1, hpnd.2, hpop, hc⟩
    rw [clk_level_of_pop hc hpop hpush hf] at hint
    cases hint

/-- The interrupt is enabled, the count is at the trigger level, and nothing reads, pops or resets
    the FIFO. -/
structure Waiting (s : Regs) (i : RegsIn) : Prop where
  enabled : s.ier.getLsbD 0 = true
  level : s.trigger ≤ s.rfCount
  noRead : s.fifoRead i = false
  noPop : s.rfPop = false
  noReset : s.rxReset = false

/-- In one such cycle the flag is set. -/
theorem Armed.pending (h : s.Armed) (hw : s.Waiting i) : (s.clk i).rdaIntPnd = true := by
  have hint : s.rdaInt = true := rdaInt_iff.2 ⟨hw.enabled, hw.level⟩
  have hno : ¬ s.Clears i := by
    rintro ⟨-, hread, -⟩
    rw [hw.noRead] at hread
    cases hread
  rw [clk_rdaIntPnd hint hno]
  by_contra hne
  rw [Bool.not_eq_true, Bool.or_eq_false_iff, Bool.not_eq_false'] at hne
  have hpop := (h hint hne.1 hne.2).1
  rw [hw.noPop] at hpop
  cases hpop

end Regs

/-- RUN. -/
theorem armed_run (R : Regs.machine.Run) (hn : ∀ t, (R.state t).NoRace (R.input t)) (t : ℕ) :
    (R.state t).Armed := by
  induction t with
  | zero =>
    intro _ hd
    rw [R.start.rda.1] at hd
    cases hd
  | succ t ih =>
    rw [regs_succ]
    exact ih.clk (hn t)

/-- In every run without the race, four cycles with the interrupt enabled and the count at the
    trigger level, in which nothing reads, pops or resets the FIFO, have the flag pending: from the
    second cycle on and after them. -/
theorem rda_pending (R : Regs.machine.Run) (hn : ∀ t, (R.state t).NoRace (R.input t)) (t : ℕ)
    (hw : ∀ k, k < 4 → (R.state (t + k)).Waiting (R.input (t + k))) :
    ∀ k, k < 4 → (R.state (t + k + 1)).rdaIntPnd = true := by
  intro k hk
  rw [regs_succ]
  exact (armed_run R hn (t + k)).pending (hw k hk)

/-- The interrupt is enabled with trigger level 1 and a byte arrives in cycle 2. After `n` idle
    cycles, of which there may be none, the byte is read, and with `race` the next byte arrives in
    the cycle of the pop. -/
def raceInput (race : Bool) (n t : ℕ) : RegsIn :=
  if t = 0 then .write 1 0b0001
  else if t = 1 then .write 2 0b00000000
  else if t = 2 then .byte
  else if t = n + 4 then .readRb
  else if t = n + 5 ∧ race = true then .byte
  else .idle

def raceRun (race : Bool) (n : ℕ) : Regs.machine.Run :=
  .ofInput Regs.init (raceInput race n) Regs.reset_init fun _ => trivial

/-- The registers while the first byte waits. -/
def Regs.oneByte : Regs :=
  (((Regs.init.clk (.write 1 0b0001)).clk (.write 2 0b00000000)).clk .byte).clk .idle

/-- The registers after the race. -/
def Regs.raced : Regs := (((Regs.oneByte.clk .readRb).clk .byte).clk .idle)

theorem raceRun_idle {race : Bool} {n t : ℕ} (h3 : 3 ≤ t) (h4 : t ≠ n + 4) (h5 : t ≠ n + 5) :
    (raceRun race n).input t = .idle := by
  change raceInput race n t = _
  simp only [raceInput, show ¬ t = 0 by omega, show ¬ t = 1 by omega, show ¬ t = 2 by omega, h4, h5,
    false_and, if_false]

/-- The first byte waits for its read. -/
theorem raceRun_wait (race : Bool) (n : ℕ) {k : ℕ} (hk : k ≤ n) :
    (raceRun race n).state (4 + k) = Regs.oneByte := by
  induction k with
  | zero => rfl
  | succ k ih =>
    rw [← Nat.add_assoc, regs_succ, ih (by omega), raceRun_idle (by omega) (by omega) (by omega)]
    rfl

/-- After the race nothing moves any more. -/
theorem raceRun_raced (n k : ℕ) : (raceRun true n).state (n + 7 + k) = Regs.raced := by
  induction k with
  | zero =>
    have h4 : (raceRun true n).input (n + 4) = .readRb := by
      change raceInput true n (n + 4) = _
      simp [raceInput]
    have h5 : (raceRun true n).input (n + 5) = .byte := by
      change raceInput true n (n + 5) = _
      simp [raceInput]
    have h6 := @raceRun_idle true n (n + 6) (by omega) (by omega) (by omega)
    rw [Nat.add_zero, regs_succ, h6, regs_succ, h5, regs_succ, h4, Nat.add_comm n 4,
      raceRun_wait true n le_rfl]
    rfl
  | succ k ih =>
    rw [← Nat.add_assoc, regs_succ, ih, raceRun_idle (by omega) (by omega) (by omega)]
    rfl

/-- Without the second byte there is no race. -/
theorem raceRun_noRace (n t : ℕ) :
    ((raceRun false n).state t).NoRace ((raceRun false n).input t) := by
  rcases Nat.lt_or_ge t 3 with ht | ht
  · have h0 : ((raceRun false n).state t).rfCount = 0 := by interval_cases t <;> rfl
    have hno : ((raceRun false n).state t).rdaInt ≠ true := by
      rw [Ne, Regs.rdaInt_iff, h0]
      exact fun h => absurd (Regs.trigger_pos _) (BitVec.not_lt.2 h.2)
    exact ⟨fun h => absurd h.1 hno, fun h => absurd h.1 hno⟩
  · have hin : (raceRun false n).input t = .readRb ∨ (raceRun false n).input t = .idle := by
      change raceInput false n t = _ ∨ raceInput false n t = _
      simp only [raceInput, show ¬ t = 0 by omega, show ¬ t = 1 by omega, show ¬ t = 2 by omega,
        Bool.false_eq_true, and_false, if_false]
      split <;> simp
    rcases hin with hin | hin <;> rw [hin] <;> exact ⟨fun _ => rfl, fun _ => ⟨rfl, rfl⟩⟩

/-- The first byte is pending while it waits. -/
theorem rda_pending_first :
    ((raceRun false 4).state 5).rdaIntPnd = true ∧
      ((raceRun false 4).state 8).rdaIntPnd = true := by
  have hw : ∀ k, k < 4 →
      ((raceRun false 4).state (4 + k)).Waiting ((raceRun false 4).input (4 + k)) := by
    intro k hk
    rw [raceRun_wait false 4 (by omega), raceRun_idle (by omega) (by omega) (by omega)]
    exact ⟨by decide, by decide, rfl, rfl, rfl⟩
  have h := rda_pending (raceRun false 4) (raceRun_noRace 4) 4 hw
  exact ⟨h 0 (by decide), h 3 (by decide)⟩

/-- With the second byte in the cycle of the pop, here 303 cycles after the first, the FIFO stays at
    the trigger level and the flag is never set again. -/
theorem rda_lost :
    (raceRun true 300).input 2 = .byte ∧ (raceRun true 300).input 304 = .readRb ∧
      (raceRun true 300).input 305 = .byte ∧
      ∀ k, ((raceRun true 300).state (307 + k)).Waiting ((raceRun true 300).input (307 + k)) ∧
        ((raceRun true 300).state (307 + k)).rfCount = 1 ∧
        ((raceRun true 300).state (307 + k)).rdaIntPnd = false := by
  refine ⟨rfl, rfl, rfl, fun k => ?_⟩
  rw [raceRun_raced 300 k, raceRun_idle (by omega) (by omega) (by omega)]
  exact ⟨⟨by decide, by decide, rfl, rfl, rfl⟩, by decide, by decide⟩

end DsdOrsoc.Uart
