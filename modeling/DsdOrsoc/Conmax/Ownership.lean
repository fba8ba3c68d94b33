import DsdOrsoc.Conmax.SlaveIf
import DsdOrsoc.Schemes.Machine

/-! Who owns a slave while a transfer runs. The level register `pri_out` is meant to stand still
    during a transfer, but its enable `next` is the REGISTERED complement of `wb_cyc_o`: in the
    first cycle of a transfer it still shows the idle cycle before, so the level is sampled once
    more.

        cycle      t-1   t    t+1
        wb_cyc_o    0    1     1
        next        1    1     0
                         └─ pri_out is reloaded here: a request of a higher level takes the slave

    From the second cycle on the owner is safe. The transfer therefore keeps its owner exactly if no
    request of a higher level stands in its first cycle. -/

namespace DsdOrsoc.Conmax
open Schemes

/-- The input pins of a slave interface in one cycle: the lines of the masters and of the slave. -/
structure SlaveIn where
  m : Master → WbReq
  wb : WbAns

/-- The slave interface with the constant configuration `conf`, under any requests and answers. -/
def slaveIf (conf : BitVec 16) : Machine SlaveIf SlaveIn where
  start s := s = SlaveIf.reset
  legal _ _ := True
  step s i := s.clk conf i.m

namespace SlaveIf

variable {s : SlaveIf} {conf : BitVec 16} {m : Master → WbReq}

theorem gnt_clk (p : Level) :
    (s.clk conf m).gnt p = RoundRobin.grant (req conf m p) (s.gnt p) := arbNext_eq _ _

/-- The selected master of the next cycle: a grant of the level that is served then. -/
theorem mastSel_clk : (s.clk conf m).mastSel =
    RoundRobin.grant (req conf m (s.clk conf m).priOut) (s.gnt (s.clk conf m).priOut) := gnt_clk _

theorem req_iff {p : Level} {i : Master} :
    req conf m p i = true ↔ (m i).cyc = true ∧ pri conf i = p := by
  simp [req]

theorem priOut_next (h : s.next = true) :
    (s.clk conf m).priOut = priEnc (fun i => (m i).cyc) (pri conf) := by simp [clk, h]

theorem priOut_hold (h : s.next = false) : (s.clk conf m).priOut = s.priOut := by simp [clk, h]

/-- When the level is sampled while somebody requests, a requesting master of that level is
    selected. -/
theorem mastSel_sampled (hn : s.next = true) {i : Master} (hi : (m i).cyc = true) :
    req conf m (s.clk conf m).priOut (s.clk conf m).mastSel = true := by
  obtain ⟨j, hj⟩ : Asks (fun i => (m i).cyc) (pri conf) (priEnc (fun i => (m i).cyc) (pri conf)) :=
    priEnc_asks hi
  rw [mastSel_clk]
  refine RoundRobin.req_grant (m := j) _ ?_
  rw [priOut_next hn]
  exact req_iff.2 hj

/-- A selected master whose `cyc` arrived belongs to the level that is served, and the level stands
    still only behind such a master. -/
structure Settled (s : SlaveIf) (conf : BitVec 16) : Prop where
  level : s.cycR s.mastSel = true → pri conf s.mastSel = s.priOut
  busy : s.next = false → s.cycR s.mastSel = true

/-- While the level stands still, a requesting owner stays selected. -/
theorem Settled.mastSel_hold (h : s.Settled conf) (hn : s.next = false)
    (hc : (m s.mastSel).cyc = true) : (s.clk conf m).mastSel = s.mastSel := by
  rw [mastSel_clk, priOut_hold hn]
  exact RoundRobin.grant_of_req (req_iff.2 ⟨hc, h.level (h.busy hn)⟩)

/-- STEP. -/
theorem Settled.clk (h : s.Settled conf) : (s.clk conf m).Settled conf := by
  refine ⟨?_, ?_⟩
  · intro hc
    cases hn : s.next with
    | true => exact (req_iff.1 (mastSel_sampled hn hc)).2
    | false =>
      rw [mastSel_clk, priOut_hold hn]
      rcases RoundRobin.req_grant_or_park (req conf m s.priOut) (s.gnt s.priOut) with hg | hg
      · exact (req_iff.1 hg).2
      · rw [hg]
        exact h.level (h.busy hn)
  · intro hb
    have hcyc : (m s.mastSel).cyc = true ∧ s.cycR s.mastSel = true := by
      simpa [SlaveIf.clk, wbO] using hb
    cases hn : s.next with
    | true => exact (req_iff.1 (mastSel_sampled hn hcyc.1)).1
    | false =>
      change (m (s.clk conf m).mastSel).cyc = true
      rw [h.mastSel_hold hn hcyc.1]
      exact hcyc.1

/-- RUN. -/
theorem settled_reachable (h : (slaveIf conf).Reachable s) : s.Settled conf := by
  refine h.invariant (I := fun s => s.Settled conf) ?_ ?_
  · rintro s rfl
    exact ⟨by simp [reset], by simp [reset]⟩
  · intro s i hs _
    exact hs.clk

/-- KEEP: no request of a higher level, so the sampled level is the owner's. -/
theorem Settled.mastSel_keep (h : s.Settled conf) (hc : (s.wbO m).cyc = true)
    (hle : ∀ i, (m i).cyc = true → pri conf i ≤ s.priOut) :
    (s.clk conf m).mastSel = s.mastSel := by
  have hcyc : (m s.mastSel).cyc = true ∧ s.cycR s.mastSel = true := by simpa [wbO] using hc
  have hlev := h.level hcyc.2
  cases hn : s.next with
  | false => exact h.mastSel_hold hn hcyc.1
  | true =>
    have hp : (s.clk conf m).priOut = s.priOut := by
      rw [priOut_next hn]
      obtain ⟨j, hj, hjp⟩ : Asks (fun i => (m i).cyc) (pri conf)
        (priEnc (fun i => (m i).cyc) (pri conf)) := priEnc_asks hcyc.1
      refine BitVec.le_antisymm ?_ ?_
      · rw [← hjp]
        exact hle j hj
      · rw [← hlev]
        exact le_priEnc hcyc.1
    rw [mastSel_clk, hp]
    exact RoundRobin.grant_of_req (req_iff.2 ⟨hcyc.1, hlev⟩)

/-- LOSE: a higher level is sampled, and a master of that level is selected. -/
theorem Settled.mastSel_lose (h : s.Settled conf) (hc : (s.wbO m).cyc = true)
    (hn : s.next = true) {i : Master} (hi : (m i).cyc = true) (hlt : s.priOut < pri conf i) :
    (s.clk conf m).mastSel ≠ s.mastSel := by
  have hcyc : (m s.mastSel).cyc = true ∧ s.cycR s.mastSel = true := by simpa [wbO] using hc
  intro heq
  have hsel : req conf m (s.clk conf m).priOut (s.clk conf m).mastSel = true :=
    mastSel_sampled hn hi
  have hreq := (req_iff.1 hsel).2
  rw [heq, h.level hcyc.2, priOut_next hn] at hreq
  have hle : pri conf i ≤ priEnc (fun i => (m i).cyc) (pri conf) := le_priEnc hi
  rw [← hreq] at hle
  exact absurd hlt (BitVec.not_lt.2 hle)

end SlaveIf

/-! ### Transfers -/

section Transfer

variable {conf : BitVec 16} (R : (slaveIf conf).Run)

/-- The lines to the slave in cycle `t`. -/
def wbAt (t : ℕ) : WbReq := (R.state t).wbO (R.input t).m

/-- Masters hold their requests until they are answered. -/
def MastersHold : Prop :=
  ∀ t i, ((R.input t).m i).cyc = true → ((R.input t).m i).stb = true →
    ((R.state t).mO (R.input t).wb i).ack = false → ((R.state t).mO (R.input t).wb i).err = false →
    (R.input (t + 1)).m i = (R.input t).m i

/-- Once `wb_cyc_o` and `wb_stb_o` are high, the selected master stays selected until it deasserts
    its `cyc`, and the slave sees its address, data, select and write lines. -/
def KeepsOwner : Prop :=
  ∀ t, (wbAt R t).cyc = true → (wbAt R t).stb = true → ∀ u, t ≤ u →
    (∀ v, t ≤ v → v < u → ((R.input v).m (R.state t).mastSel).cyc = true) →
    (R.state u).mastSel = (R.state t).mastSel ∧
    (wbAt R u).adr = ((R.input u).m (R.state t).mastSel).adr ∧
    (wbAt R u).dat = ((R.input u).m (R.state t).mastSel).dat ∧
    (wbAt R u).sel = ((R.input u).m (R.state t).mastSel).sel ∧
    (wbAt R u).we = ((R.input u).m (R.state t).mastSel).we

/-- No request of a higher level stands in the cycle in which a transfer starts: the selected master
    has `cyc`, its delayed copy and `stb`, and `next` still shows the idle cycle before. -/
def StartsUnrivalled (t : ℕ) : Prop :=
  ((R.input t).m (R.state t).mastSel).cyc = true → (R.state t).cycR (R.state t).mastSel = true →
    ((R.input t).m (R.state t).mastSel).stb = true → (R.state t).next = true →
    ∀ i, ((R.input t).m i).cyc = true → pri conf i ≤ (R.state t).priOut

theorem wbAt_cyc {t : ℕ} (h : (wbAt R t).cyc = true) :
    ((R.input t).m (R.state t).mastSel).cyc = true ∧
      (R.state t).cycR (R.state t).mastSel = true := by
  simpa [wbAt, SlaveIf.wbO] using h

/-- The owner of a running transfer stays selected if nobody rivals it in this cycle. -/
theorem owner_step {t : ℕ} (hc : (wbAt R t).cyc = true)
    (hle : (R.state t).next = true → ∀ i, ((R.input t).m i).cyc = true →
      pri conf i ≤ (R.state t).priOut) :
    (R.state (t + 1)).mastSel = (R.state t).mastSel ∧ (R.state (t + 1)).next = false ∧
      (R.state (t + 1)).cycR (R.state t).mastSel = true := by
  have hs : (R.state t).Settled conf := SlaveIf.settled_reachable (R.reachable t)
  have hcyc := wbAt_cyc R hc
  have hclk : R.state (t + 1) = (R.state t).clk conf (R.input t).m := R.next t
  rw [hclk]
  refine ⟨?_, ?_, hcyc.1⟩
  · cases hn : (R.state t).next with
    | true => exact hs.mastSel_keep hc (hle hn)
    | false => exact hs.mastSel_hold hn hcyc.1
  · simp only [SlaveIf.clk]
    simpa [wbAt] using hc

/-- RUN: from an unrivalled start on, the transfer has one owner. -/
theorem owner_run {t : ℕ} (hc : (wbAt R t).cyc = true) (hs : (wbAt R t).stb = true)
    (hst : StartsUnrivalled R t) (n : ℕ)
    (hhold : ∀ v, t ≤ v → v < t + n → ((R.input v).m (R.state t).mastSel).cyc = true) :
    (R.state (t + n)).mastSel = (R.state t).mastSel ∧
      (R.state (t + n)).cycR (R.state t).mastSel = true ∧
      (0 < n → (R.state (t + n)).next = false) := by
  have hcyc := wbAt_cyc R hc
  induction n with
  | zero => exact ⟨rfl, hcyc.2, fun h => absurd h (lt_irrefl 0)⟩
  | succ n ih =>
    obtain ⟨hm, hr, hn⟩ := ih fun v h1 h2 => hhold v h1 (by omega)
    have hcn : (wbAt R (t + n)).cyc = true := by
      simp [wbAt, SlaveIf.wbO, hm, hr, hhold (t + n) (by omega) (by omega)]
    have hle : (R.state (t + n)).next = true → ∀ i, ((R.input (t + n)).m i).cyc = true →
        pri conf i ≤ (R.state (t + n)).priOut := by
      intro hnext
      rcases Nat.eq_zero_or_pos n with rfl | hpos
      · exact hst hcyc.1 hcyc.2 hs hnext
      · rw [hn hpos] at hnext
        cases hnext
    obtain ⟨hm', hn', hr'⟩ := owner_step R hcn hle
    rw [hm] at hm' hr'
    exact ⟨hm', hr', fun _ => hn'⟩

/-- Transfers keep their owner in a run if and only if every one of them starts without a rival of a
    higher level. -/
theorem keepsOwner_iff : KeepsOwner R ↔ ∀ t, StartsUnrivalled R t := by
  constructor
  · intro h t hcyc hr hstb hn i hi
    by_contra hlt
    have hc : (wbAt R t).cyc = true := by simp [wbAt, SlaveIf.wbO, hcyc, hr]
    have hkeep := (h t hc hstb (t + 1) (by omega) (by
      intro v h1 h2
      obtain rfl : v = t := by omega
      exact hcyc)).1
    have hs : (R.state t).Settled conf := SlaveIf.settled_reachable (R.reachable t)
    have hclk : R.state (t + 1) = (R.state t).clk conf (R.input t).m := R.next t
    rw [hclk] at hkeep
    exact hs.mastSel_lose hc hn hi (BitVec.not_le.1 hlt) hkeep
  · intro h t hc hs u hu hhold
    obtain ⟨n, rfl⟩ := Nat.exists_eq_add_of_le hu
    have hm := (owner_run R hc hs (h t) n hhold).1
    refine ⟨hm, ?_, ?_, ?_, ?_⟩ <;> simp only [wbAt, SlaveIf.wbO, hm]

end Transfer

/-- Master 0 requests from the first cycle on and master 1 from the second one on. -/
def rivalInput (t : ℕ) : SlaveIn where
  m i :=
    { cyc := decide (i = 0) || decide (i = 1 ∧ 1 ≤ t)
      stb := decide (i = 0) || decide (i = 1 ∧ 1 ≤ t)
      adr := 0, dat := 0, sel := 0, we := false }
  wb := { ack := false, err := false, rty := false, dat := 0 }

/-- With master 1 at level 1 the slave changes hands in the second cycle of master 0's transfer. -/
theorem rival_takes_slave : ∃ R : (slaveIf 0x0004).Run, MastersHold R ∧ ¬ KeepsOwner R := by
  refine ⟨.ofInput SlaveIf.reset rivalInput rfl fun _ => trivial, ?_, ?_⟩
  · intro t i hc _ _ _
    simp only [Machine.Run.ofInput, rivalInput, Bool.or_eq_true, decide_eq_true_eq] at hc ⊢
    rcases hc with rfl | ⟨rfl, ht⟩
    · simp
    · simp [ht]
  · intro h
    have := (h 1 (by decide) (by decide) 2 (by decide) (by
      intro v h1 h2
      obtain rfl : v = 1 := by omega
      decide)).1
    revert this
    decide

end DsdOrsoc.Conmax
