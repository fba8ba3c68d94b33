import DsdOrsoc.Yadmc.Sdram16

/-! How long `yadmc_sdram16` takes. Its states form a chain without a way back, apart from the
    refreshes in IDLE:

        RESET ──▶ INIT_* ──▶ IDLE ──▶ PRECHARGE_BEFORE_WRITE ──▶ ... ──▶ WRITEBURST
                            │   ▲                                            │
                            │   └ refresh                                    ▼
                            └────────────▶ PRECHARGE_BEFORE_READ ──▶ ... ──▶ READBURST ──▶ ack

    A state is left at once, or when its counter has run down. `serveRank` counts the cycles that
    are left until the acknowledge of an asserted command. -/

namespace DsdOrsoc.Yadmc

/-- A counter that is not loaded and has not reached zero runs down. -/
theorem countdown_lt {w : ℕ} {reload : Bool} (v : BitVec w) {c : BitVec w} (hr : reload = false)
    (hd : decide (c = 0) = false) : (countdown reload v c).toNat < c.toNat := by
  have h : c ≠ 0 := of_decide_eq_false hd
  simp only [countdown, hr, h, if_false, Bool.false_eq_true]
  exact Schemes.toNat_sub_one_lt h

/-- The states of an execution. -/
def serving : SdramState → Bool
  | .prechargeBeforeWrite | .activateBeforeWrite | .write | .writeburst
  | .prechargeBeforeRead | .activateBeforeRead | .read | .readreg1 | .readreg2 | .readreg3
  | .readfirst | .readburst => true
  | _ => false

/-- The cycles that an asserted command may still take; the refresh interval is not zero. -/
def serveRank (c : Sdram16) : ℕ :=
  match c.state with
  | .readburst => 8 - c.burstCounter.toNat
  | .readfirst => 9
  | .readreg3 => 10
  | .readreg2 => 11
  | .readreg1 => 12
  | .read => 13 + c.activateCounter.toNat
  | .activateBeforeRead => 21 + c.prechargeCounter.toNat
  | .prechargeBeforeRead => 29
  | .writeburst => 30 + (8 - c.burstCounter.toNat)
  | .write => 39 + c.activateCounter.toNat
  | .activateBeforeWrite => 47 + c.prechargeCounter.toNat
  | .prechargeBeforeWrite => 55
  | .idle => if c.needsRefresh then 82 else 56
  | .waitRefresh => 57 + c.autorefreshCounter.toNat
  | .autorefresh => 73 + c.prechargeallCounter.toNat
  | .prechargeBeforeRefresh => 81
  | .initLoadmode => 83 + c.autorefreshCounter.toNat
  | .initAutorefresh2 => 99 + c.autorefreshCounter.toNat
  | .initAutorefresh1 => 115 + c.prechargeallCounter.toNat
  | .initPrechargeall => 123 + c.initCounter.toNat
  | .reset => 123 + 2 ^ 16

/-- The counter of the read burst has not passed seven. -/
def Counted (c : Sdram16) : Prop := c.state = .readburst → c.burstCounter.toNat < 8

/-- A burst counter below eight goes on to eight at most. -/
theorem burst_next : ∀ b : BitVec 4, b.getLsbD 3 = false →
    (b + 1).toNat = b.toNat + 1 ∧ b.toNat < 8 := by decide

theorem burst_last : ∀ b : BitVec 4, b.toNat < 8 →
    (b.getLsbD 0 && b.getLsbD 1 && b.getLsbD 2) = false → b.getLsbD 3 = false ∧ b.toNat < 7 := by
  decide

section Pace

variable {c : Sdram16} {i : SdramIn}

theorem initCounter_lt (h : (c.out i).reloadInitCounter = false) (hd : c.initDone = false) :
    (c.clk i).initCounter.toNat < c.initCounter.toNat :=
  countdown_lt (i.cfg0.extractLsb' 16 16) h hd

theorem prechargeallCounter_lt (h : (c.out i).reloadPrechargeallCounter = false)
    (hd : c.prechargeallDone = false) :
    (c.clk i).prechargeallCounter.toNat < c.prechargeallCounter.toNat :=
  countdown_lt (i.cfg1.extractLsb' 0 3) h hd

theorem prechargeCounter_lt (h : (c.out i).reloadPrechargeCounter = false)
    (hd : c.prechargeDone = false) :
    (c.clk i).prechargeCounter.toNat < c.prechargeCounter.toNat :=
  countdown_lt (i.cfg1.extractLsb' 3 3) h hd

theorem autorefreshCounter_lt (h : (c.out i).reloadAutorefreshCounter = false)
    (hd : c.autorefreshDone = false) :
    (c.clk i).autorefreshCounter.toNat < c.autorefreshCounter.toNat :=
  countdown_lt (i.cfg1.extractLsb' 6 4) h hd

theorem activateCounter_lt (h : (c.out i).reloadActivateCounter = false)
    (hd : c.activateDone = false) :
    (c.clk i).activateCounter.toNat < c.activateCounter.toNat :=
  countdown_lt (i.cfg1.extractLsb' 10 3) h hd

/-- Within a burst the counter goes up. -/
theorem burstCounter_clk (h : (c.out i).reloadBurstCounter = false) (hf : c.burstFinished = false) :
    (c.clk i).burstCounter.toNat = c.burstCounter.toNat + 1 ∧ c.burstCounter.toNat < 8 := by
  have hn : (c.clk i).burstCounter = c.burstCounter + 1 := by
    change c.nextBurstCounter i = _
    simp [Sdram16.nextBurstCounter, h, hf]
  rw [hn]
  exact burst_next _ hf

theorem counted_clk (h : Counted c) : Counted (c.clk i) := by
  intro h'
  have hst : c.state = .readfirst ∨ (c.state = .readburst ∧ c.burstLast = false) := by
    rw [Sdram16.clk] at h'
    revert h'
    fun_cases Sdram16.out c i <;> simp_all
  rcases hst with hst | ⟨hst, hl⟩
  · change (c.nextBurstCounter i).toNat < 8
    simp [Sdram16.nextBurstCounter, Sdram16.out, hst]
  · obtain ⟨hf, h7⟩ := burst_last _ (h hst) hl
    have := (burstCounter_clk (i := i) (by simp [Sdram16.out, hst, hl]) hf).1
    omega

/-- STEP: an execution is acknowledged or comes nearer to it. -/
theorem serveRank_serve (hs : serving c.state = true) (hc : Counted c)
    (hack : c.commandAck i = false) : serveRank (c.clk i) < serveRank c := by
  have hp := (c.clk i).prechargeCounter.isLt
  have ha := (c.clk i).activateCounter.isLt
  have hn := c.state_clk i
  cases hst : c.state <;> rw [hst] at hs hn <;> dsimp only at hn <;> try cases hs
  case prechargeBeforeWrite | prechargeBeforeRead =>
    split at hn <;> simp only [serveRank, hn, hst] <;> omega
  case readreg1 | readreg2 | readreg3 => simp [serveRank, hn, hst]
  case readfirst =>
    simp only [serveRank, hn, hst]
    omega
  case activateBeforeWrite | activateBeforeRead =>
    cases hd : c.prechargeDone <;> simp only [hd, if_true, if_false, Bool.false_eq_true] at hn
    · have := prechargeCounter_lt (i := i) (by simp [Sdram16.out, hst, hd]) hd
      simp only [serveRank, hn, hst]
      omega
    · simp only [serveRank, hn, hst]
      omega
  case write | read =>
    cases hd : c.activateDone <;> simp only [hd, if_true, if_false, Bool.false_eq_true] at hn
    · have := activateCounter_lt (i := i) (by simp [Sdram16.out, hst, hd]) hd
      simp only [serveRank, hn, hst]
      omega
    · simp only [serveRank, hn, hst]
      omega
  case writeburst =>
    cases hd : c.burstFinished <;> simp only [hd, if_true, if_false, Bool.false_eq_true] at hn
    · have := burstCounter_clk (i := i) (by simp [Sdram16.out, hst, hd]) hd
      simp only [serveRank, hn, hst]
      omega
    · simp only [serveRank, hn, hst]
      omega
  case readburst =>
    have hl : c.burstLast = false := by
      rw [Bool.eq_false_iff]
      intro hl
      simp [Sdram16.commandAck, Sdram16.out, hst, hl] at hack
    obtain ⟨hf, h7⟩ := burst_last _ (hc hst) hl
    have := burstCounter_clk (i := i) (by simp [Sdram16.out, hst, hl]) hf
    simp only [hl, Bool.false_eq_true, if_false] at hn
    simp only [serveRank, hn, hst]
    omega

/-- STEP: an asserted command comes nearer to its start. -/
theorem serveRank_rest (hs : serving c.state = false)
    (hcmd : (i.commandEvict || c.commandEvictPending) = true ∨
      (i.commandRefill || c.commandRefillPending) = true)
    (href : i.cfg1.extractLsb' 16 16 ≠ 0) : serveRank (c.clk i) < serveRank c := by
  have hpa := (c.clk i).prechargeallCounter.isLt
  have har := (c.clk i).autorefreshCounter.isLt
  have hin := (c.clk i).initCounter.isLt
  have hn := c.state_clk i
  -- back in IDLE the next refresh is not due
  have hidle : (c.out i).reloadRefreshCounter = true → (c.clk i).needsRefresh = false := by
    intro h
    simpa [Sdram16.needsRefresh, Sdram16.clk, h, countdown] using href
  cases hst : c.state <;> rw [hst] at hs hn <;> dsimp only at hn <;> try cases hs
  case reset =>
    simp only [serveRank, hn, hst]
    omega
  case initPrechargeall =>
    cases hd : c.initDone <;> simp only [hd, if_true, if_false, Bool.false_eq_true] at hn
    · have := initCounter_lt (i := i) (by simp [Sdram16.out, hst, hd]) hd
      simp only [serveRank, hn, hst]
      omega
    · simp only [serveRank, hn, hst]
      omega
  case initAutorefresh1 | autorefresh =>
    cases hd : c.prechargeallDone <;> simp only [hd, if_true, if_false, Bool.false_eq_true] at hn
    · have := prechargeallCounter_lt (i := i) (by simp [Sdram16.out, hst, hd]) hd
      simp only [serveRank, hn, hst]
      omega
    · simp only [serveRank, hn, hst]
      omega
  case initAutorefresh2 =>
    cases hd : c.autorefreshDone <;> simp only [hd, if_true, if_false, Bool.false_eq_true] at hn
    · have := autorefreshCounter_lt (i := i) (by simp [Sdram16.out, hst, hd]) hd
      simp only [serveRank, hn, hst]
      omega
    · simp only [serveRank, hn, hst]
      omega
  case initLoadmode | waitRefresh =>
    cases hd : c.autorefreshDone <;> simp only [hd, if_true, if_false, Bool.false_eq_true] at hn
    · have := autorefreshCounter_lt (i := i) (by simp [Sdram16.out, hst, hd]) hd
      simp only [serveRank, hn, hst]
      omega
    · have := hidle (by simp [Sdram16.out, hst, hd])
      simp only [serveRank, hn, hst, this, Bool.false_eq_true, if_false]
      omega
  case idle =>
    cases hr : c.needsRefresh with
    | true =>
      simp only [hr, if_true] at hn
      simp [serveRank, hn, hst, hr]
    | false =>
      simp only [hr, Bool.false_eq_true, if_false] at hn
      rcases hcmd with h | h
      · rw [if_pos h] at hn
        simp [serveRank, hn, hst, hr]
      · rw [if_pos h] at hn
        split at hn <;> simp [serveRank, hn, hst, hr]
  case prechargeBeforeRefresh =>
    simp only [serveRank, hn, hst]
    omega

end Pace

end DsdOrsoc.Yadmc
