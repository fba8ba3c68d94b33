import DsdOrsoc.Schemes.Progress
import DsdOrsoc.Yadmc.Crossing

/-! Every command of `yadmc` is delivered: with both clocks running and a refresh interval in
    `yadmc_cfg1` that is not zero, each miss gets its whole round. A rank counts the edges left:

        SENT                 flip-flops of the flag's synchronizer, at sdram_clk edges
        PENDING, SERVING     `serveRank` of the controller, at sdram_clk edges
        ACKED                flip-flops of `sync_ack`, at sys_clk edges

    With a refresh interval of zero the controller comes back to IDLE with the next refresh due,
    refreshes again, and never looks at the command. -/

namespace DsdOrsoc.Yadmc.Crossing
open Schemes

/-- Both clocks go on rising. -/
def Ticking (R : machine.Run) : Prop :=
  (∀ t, ∃ n, t ≤ n ∧ (R.input n).bus.isSome = true) ∧
  (∀ t, ∃ n, t ≤ n ∧ (R.input n).dq.isSome = true)

/-- `yadmc_cfg1[31:16]`, the programmed refresh interval. -/
def refreshInterval (s : System) : BitVec 16 := s.cfg1.extractLsb' 16 16

/-! ### Synchronizers -/

/-- The receiver's edges before a flag in flight is seen. -/
def lag (y : Sync) : ℕ := if y.sync1 = y.toggle then 0 else if y.sync0 = y.toggle then 1 else 2

theorem Busy.not_quiet {y : Sync} (h : y.Busy) : ¬ y.Quiet := by
  intro hq
  have := h.1.symm.trans hq.2.2
  simp at this

/-- While the flag stays in flight it moves on at every edge of the receiver. -/
theorem Busy.lag_edge {y : Sync} {recv : Bool} (h : y.Busy)
    (h' : ((if recv then y.clk1 else y).clk0 false).Busy) :
    lag ((if recv then y.clk1 else y).clk0 false) ≤ lag y ∧
    (recv = true → lag ((if recv then y.clk1 else y).clk0 false) < lag y) := by
  cases recv with
  | false => simp [lag, Sync.clk0]
  | true =>
    have hf : y.flago = false := by
      rw [Bool.eq_false_iff]
      intro hf
      have hq := Busy.edge h true
      rw [hf] at hq
      exact Busy.not_quiet h' hq
    have h1 : y.sync1 ≠ y.toggle := fun hs => by simp [h.flago.2 hs] at hf
    have hlt : lag ((if true then y.clk1 else y).clk0 false) < lag y := by
      by_cases h0 : y.sync0 = y.toggle <;> simp [lag, Sync.clk0, Sync.clk1, h1, h0]
    exact ⟨hlt.le, fun _ => hlt⟩

/-! ### Ranks of the phases -/

section Rank

variable {s : System} {e : Edge} {c : Command} {L : List Event}

/-- The synchronizer that carries the flag of a command. -/
def carrier (c : Command) (s : System) : Sync := if c.evict then s.syncEvict else s.syncRefill

theorem Sent.rank (h : Sent c L s) (h' : Sent c L (s.step e)) :
    lag (carrier c (s.step e)) ≤ lag (carrier c s) ∧
    (e.dq.isSome = true → lag (carrier c (s.step e)) < lag (carrier c s)) := by
  obtain ⟨-, hE, hR, -, -⟩ := h.wait.step (e := e) h.ack.flago
  have hb := h.evict
  have hb' := h'.evict
  have hr := h.refill
  have hr' := h'.refill
  cases hv : c.evict with
  | true =>
    rw [hv] at hb hb'
    rw [System.step, hE] at hb'
    simp only [carrier, hv, if_true]
    rw [System.step, hE]
    exact Busy.lag_edge hb hb'
  | false =>
    rw [hv] at hr hr'
    rw [System.step, hR] at hr'
    simp only [carrier, hv, if_false, Bool.false_eq_true]
    rw [System.step, hR]
    exact Busy.lag_edge hr hr'

theorem Acked.rank (h : Acked c L s) (h' : Acked c L (s.step e)) :
    lag (s.step e).syncAck ≤ lag s.syncAck ∧
    (e.bus.isSome = true → lag (s.step e).syncAck < lag s.syncAck) := by
  obtain ⟨-, hcack, -⟩ := h.core.step (e := e) h.evict.flago h.refill.flago
  have hb' := h'.ack
  rw [System.step, hcack] at hb' ⊢
  exact Busy.lag_edge h.ack hb'

/-- The rank of the controller moves with its own clock only. -/
theorem core_rank
    (h : ∀ d, e.dq = some d → serveRank (s.core.clk (s.sdramIn d)) < serveRank s.core) :
    serveRank (s.step e).core ≤ serveRank s.core ∧
    (e.dq.isSome = true → serveRank (s.step e).core < serveRank s.core) := by
  cases hd : e.dq with
  | none =>
    rw [(core_still hd).1]
    exact ⟨le_refl _, fun h => by cases h⟩
  | some d =>
    have hcore : (s.step e).core = s.core.clk (s.sdramIn d) := by simp [System.step, hd]
    rw [hcore]
    exact ⟨(h d hd).le, fun _ => h d hd⟩

theorem Pending.rank (h : Pending c L s) (href : refreshInterval s ≠ 0) :
    serveRank (s.step e).core ≤ serveRank s.core ∧
    (e.dq.isSome = true → serveRank (s.step e).core < serveRank s.core) := by
  have hcmd : (s.syncEvict.flago || s.core.commandEvictPending) = true ∨
      (s.syncRefill.flago || s.core.commandRefillPending) = true := by
    rw [h.recorded.evict, h.recorded.refill]
    cases c.evict <;> simp
  exact core_rank fun d _ => serveRank_rest (i := s.sdramIn d) h.rest hcmd href

theorem Serving.rank (h : Serving c L s) (hc : Counted s.core) (hack : s.commandAck e = false) :
    serveRank (s.step e).core ≤ serveRank s.core ∧
    (e.dq.isSome = true → serveRank (s.step e).core < serveRank s.core) := by
  refine core_rank fun d hd => ?_
  rw [System.commandAck, hd] at hack
  exact serveRank_serve (i := s.sdramIn d) h.serves hc hack

end Rank

theorem counted_reachable {s : System} (hs : machine.Reachable s) : Counted s.core := by
  refine hs.invariant (I := fun s => Counted s.core) (fun s h h' => ?_) (fun s e h _ => ?_)
  · rw [h.2.2.2.2.1] at h'
    cases h'
  · cases e with
    | sys b => exact h
    | sdram d | both b d => exact counted_clk h

/-! ### Runs -/

section Run

variable {R : machine.Run} {c : Command} {L : List Event} {t : ℕ}

/-- RUN: a flag that was sent arrives. -/
theorem Run.sent_arrives (hR : Ticking R) (h : Sent c L (R.state t)) :
    ∃ n, t < n ∧ (Pending c L (R.state n) ∨ Serving c L (R.state n)) := by
  refine fair_phase_ends (P := fun u => Sent c L (R.state u))
    (Q := fun u => Pending c L (R.state u) ∨ Serving c L (R.state u))
    (fun u => lag (carrier c (R.state u))) hR.2 (fun u hu => ?_) h
  rw [R.next u]
  rcases hu.step (e := R.input u) with h' | h'
  · exact .inr ⟨h', hu.rank h'⟩
  · exact .inl h'

/-- RUN: a command that has arrived is executed. -/
theorem Run.crossed_served (hR : Ticking R) (href : ∀ t, refreshInterval (R.state t) ≠ 0)
    (h : Pending c L (R.state t) ∨ Serving c L (R.state t)) :
    ∃ n, t < n ∧ Acked c L (R.state n) := by
  refine fair_phase_ends (P := fun u => Pending c L (R.state u) ∨ Serving c L (R.state u))
    (Q := fun u => Acked c L (R.state u)) (fun u => serveRank (R.state u).core) hR.2
    (fun u hu => ?_) h
  rw [R.next u]
  rcases hu with hu | hu
  · exact .inr ⟨hu.step, hu.rank (href u)⟩
  · rcases hu.step (e := R.input u) with ⟨hack, h'⟩ | h'
    · exact .inr ⟨.inr h', hu.rank (counted_reachable (R.reachable u)) hack⟩
    · exact .inl h'

/-- RUN: an acknowledge that was sent arrives. -/
theorem Run.acked_arrives (hR : Ticking R) (h : Acked c L (R.state t)) :
    ∃ n, t < n ∧ Free ((round c).reverse ++ L) (R.state n) := by
  refine fair_phase_ends (P := fun u => Acked c L (R.state u))
    (Q := fun u => Free ((round c).reverse ++ L) (R.state u))
    (fun u => lag (R.state u).syncAck) hR.1 (fun u hu => ?_) h
  rw [R.next u]
  rcases hu.step (e := R.input u) with h' | h'
  · exact .inr ⟨h', hu.rank h'⟩
  · exact .inl h'

/-- A miss finds the loop free. -/
theorem Run.miss_sent (hm : (R.state t).missed (R.input t) = some c) :
    Sent c (R.state t).log (R.state (t + 1)) := by
  rw [R.next t]
  have hw : ∀ {c'}, Waiting c' (R.state t) → False := fun hw => by
    rw [(wait_step hw).2.2.1] at hm
    cases hm
  obtain ⟨done, L, -, h | ⟨c', h | h | h | h⟩⟩ := inv_reachable (R.reachable t)
  · rcases h.step (e := R.input t) with ⟨hm', -⟩ | ⟨c', hm', h'⟩
    · rw [hm'] at hm
      cases hm
    · rw [hm'] at hm
      cases hm
      rw [h.log]
      exact h'
  · exact (hw h.wait).elim
  · exact (hw h.wait).elim
  · exact (hw h.wait).elim
  · exact (hw h.wait).elim

end Run

/-- In every run, whatever the order of the clock edges: the events form rounds of one miss, one
    start of its execution, one finish and one acknowledge in WAIT_ACK, with at most the last round
    incomplete; an execution sees the addresses captured for its miss all along; and if both clocks
    go on and the refresh interval is never zero, every miss gets its round. -/
theorem commands_cross_once (R : machine.Run) :
    (∀ t, ∃ (done : List Command) (c : Command) (k : ℕ), k < 4 ∧
      (R.state t).log.reverse = done.flatMap round ++ (round c).take k) ∧
    (∀ t, serving (R.state t).core.state = true →
      ∃ c L, (R.state t).log = .start c :: .miss c :: L ∧
        (R.state t).cache.evictAdr = c.evictAdr ∧ (R.state t).cache.refillAdr = c.refillAdr) ∧
    (Ticking R → (∀ t, refreshInterval (R.state t) ≠ 0) →
      ∀ t c, (R.state t).missed (R.input t) = some c →
        ∃ n, t < n ∧ (R.state n).log = (round c).reverse ++ (R.state t).log) := by
  have hinv : ∀ t, Inv (R.state t) := fun t => inv_reachable (R.reachable t)
  refine ⟨fun t => (hinv t).rounds, fun t => (hinv t).addresses, fun hR href t c hm => ?_⟩
  obtain ⟨n1, h1, hcross⟩ := Run.sent_arrives hR (Run.miss_sent hm)
  obtain ⟨n2, h2, hacked⟩ := Run.crossed_served hR href hcross
  obtain ⟨n3, h3, hfree⟩ := Run.acked_arrives hR hacked
  exact ⟨n3, by omega, hfree.log⟩

/-! ### Two runs from reset -/

/-- All RAMs zero, all registers at their reset values. -/
def atReset : System where
  cache := ⟨.idle, fun _ => ⟨fun _ => 0, 0, 0⟩, ⟨fun _ => ⟨0, false⟩, ⟨0, false⟩⟩, 0, 0⟩
  syncEvict := ⟨false, false, false, false⟩
  syncRefill := ⟨false, false, false, false⟩
  syncAck := ⟨false, false, false, false⟩
  core := Legality.inReset.core
  cfg0 := 0x27100023
  cfg1 := 0x012C0952
  log := []

/-- A read of a word whose line is not in the cache. -/
def readBus : Bus := ⟨⟨0x2000, 0, 0xF, false⟩, true, true⟩

/-- A write of zero to `yadmc_cfg1`. -/
def cfgBus : Bus := ⟨⟨0xC000004, 0, 0xF, true⟩, true, true⟩

/-- The two clocks in turn, with the read on the bus. -/
def inTurn (t : ℕ) : Edge := if t % 2 = 0 then .sdram 0 else .sys readBus

theorem inTurn_bus (t : ℕ) : (inTurn (2 * t + 1)).bus.isSome = true := by
  simp [inTurn, Edge.bus, Nat.add_mod]

theorem inTurn_dq (t : ℕ) : (inTurn (2 * t)).dq.isSome = true := by
  simp [inTurn, Edge.dq]

theorem inTurn_cfg1 (s : System) (t : ℕ) : (s.step (inTurn t)).cfg1 = s.cfg1 := by
  rw [inTurn]
  split
  · rfl
  · rfl

/-- The read from reset on. -/
def readInput : ℕ → Edge
  | 0 | 1 => .sys readBus
  | t + 2 => inTurn t

def readRun : machine.Run :=
  Machine.Run.ofInput atReset readInput ⟨rfl, rfl, rfl, rfl, rfl, rfl, rfl, rfl, rfl, rfl⟩
    fun _ => trivial

theorem readRun_ticking : Ticking readRun :=
  ⟨fun t => ⟨2 * t + 1 + 2, by omega, inTurn_bus t⟩, fun t => ⟨2 * t + 2, by omega, inTurn_dq t⟩⟩

theorem readRun_cfg1 : ∀ t, (readRun.state t).cfg1 = 0x012C0952
  | 0 | 1 | 2 => rfl
  | t + 3 => by
    rw [readRun.next (t + 2)]
    exact (inTurn_cfg1 _ t).trans (readRun_cfg1 (t + 2))

theorem commands_cross_once_read :
    (readRun.state 1).missed (readRun.input 1) = some ⟨false, 0, 0x200⟩ ∧
    ∃ n, 1 < n ∧ (readRun.state n).log =
      [.ack .waitAck, .finish 0 0x200, .start ⟨false, 0, 0x200⟩, .miss ⟨false, 0, 0x200⟩] := by
  have hm : (readRun.state 1).missed (readRun.input 1) = some ⟨false, 0, 0x200⟩ := by decide
  have href : ∀ t, refreshInterval (readRun.state t) ≠ 0 := fun t => by
    rw [refreshInterval, readRun_cfg1]
    decide
  exact ⟨hm, (commands_cross_once readRun).2.2 readRun_ticking href 1 _ hm⟩

/-- The same read after `yadmc_cfg1` has been cleared. -/
def starveInput : ℕ → Edge
  | 0 | 1 => .sys cfgBus
  | 2 | 3 => .sys readBus
  | t + 4 => inTurn t

def starveRun : machine.Run :=
  Machine.Run.ofInput atReset starveInput ⟨rfl, rfl, rfl, rfl, rfl, rfl, rfl, rfl, rfl, rfl⟩
    fun _ => trivial

theorem starveRun_ticking : Ticking starveRun :=
  ⟨fun t => ⟨2 * t + 1 + 4, by omega, inTurn_bus t⟩, fun t => ⟨2 * t + 4, by omega, inTurn_dq t⟩⟩

/-- A refresh is due whenever the controller is in IDLE. -/
def Starving (c : Sdram16) : Prop :=
  serving c.state = false ∧ (c.state = .idle → c.needsRefresh = true)

theorem starving_clk {c : Sdram16} {i : SdramIn} (h : Starving c)
    (hz : i.cfg1.extractLsb' 16 16 = 0#16) : Starving (c.clk i) := by
  obtain ⟨h1, h2⟩ := h
  rw [Starving, Sdram16.needsRefresh, Sdram16.clk]
  fun_cases Sdram16.out c i <;> simp_all [serving, countdown]

/-- The command waits, and the controller refreshes. -/
structure Starved (c : Command) (L : List Event) (s : System) : Prop where
  phase : Sent c L s ∨ Pending c L s
  core : Starving s.core
  cfg1 : s.cfg1 = 0

/-- STEP: with the interval left at zero the command goes on waiting. -/
theorem Starved.step {c : Command} {L : List Event} {s : System} {e : Edge} (h : Starved c L s)
    (hcfg : (s.step e).cfg1 = s.cfg1) : Starved c L (s.step e) := by
  have hst : Starving (s.step e).core := by
    cases e with
    | sys b => exact h.core
    | sdram d | both b d => exact starving_clk h.core (by simp [System.sdramIn, h.cfg1])
  have hserve : ¬ Serving c L (s.step e) := fun hs => by
    have := hs.serves
    rw [hst.1] at this
    cases this
  refine ⟨?_, hst, hcfg.trans h.cfg1⟩
  rcases h.phase with h | h
  · rcases h.step (e := e) with h | h | h
    exacts [.inl h, .inr h, absurd h hserve]
  · rcases h.step (e := e) with h | h
    exacts [.inr h, absurd h hserve]

/-- The miss of that run, with the evicted and the refilled line. -/
def starvedMiss : Command := ⟨true, 0, 0x200⟩

/-- RUN: from the miss on. -/
theorem starveRun_starved (t : ℕ) : Starved starvedMiss [] (starveRun.state (t + 4)) := by
  induction t with
  | zero =>
    have hE : (starveRun.state 4).syncEvict = ⟨true, false, false, false⟩ := by decide
    have hR : (starveRun.state 4).syncRefill = ⟨false, false, false, false⟩ := by decide
    have hA : (starveRun.state 4).syncAck = ⟨false, false, false, false⟩ := by decide
    have hC : (starveRun.state 4).core.state = .reset := by decide
    refine ⟨.inl ⟨⟨by decide, by decide, by decide⟩, ?_, ?_, ?_, ⟨?_, by decide, by decide⟩,
      by decide⟩, ⟨?_, ?_⟩, by decide⟩
    · exact hE ▸ ⟨rfl, fun h => by cases h⟩
    · exact hR ▸ ⟨rfl, rfl, rfl⟩
    · exact hA ▸ ⟨rfl, rfl, rfl⟩
    · exact hC ▸ rfl
    · exact hC ▸ rfl
    · exact hC ▸ fun h => by cases h
  | succ t ih => exact ih.step (e := inTurn t) (inTurn_cfg1 _ t)

/-- Both clocks run, and a miss is never executed: after it nothing happens any more. -/
theorem zero_interval_starves : ∃ R : machine.Run, Ticking R ∧ ∃ t c,
    (R.state t).missed (R.input t) = some c ∧ ∀ n, t < n → (R.state n).log = [.miss c] := by
  refine ⟨starveRun, starveRun_ticking, 3, starvedMiss, by decide, fun n hn => ?_⟩
  obtain ⟨t, rfl⟩ := Nat.exists_eq_add_of_lt hn
  rw [show 3 + t + 1 = t + 4 by omega]
  rcases (starveRun_starved t).phase with h | h
  exacts [h.log, h.log]

end DsdOrsoc.Yadmc.Crossing
