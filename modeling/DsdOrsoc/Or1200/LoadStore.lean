import DsdOrsoc.Or1200.Pipeline
import DsdOrsoc.Schemes.Progress

/-! Loads and stores on the data port. The request of the instruction in EX is withdrawn by its own
    acknowledge, and the instruction is to leave EX in that cycle. The acknowledge overrides a stall
    of the fetch, and the multicycle counter does not run; but a stall of the multiply unit holds
    the instruction, and the next cycle requests the access again:

        EX            l.mac   l.lwz    l.lwz   l.lwz   l.lwz   l.macrc
        ID            l.lwz   l.macrc  l.macrc ...
        mac_stall       .       .        1       1       .
        dcpu_cycstb     .       1        .       1       .
        dcpu_ack        .       .        1       .       1 -/

namespace DsdOrsoc.Or1200
open Schemes Pipeline

/-! ### The instruction in EX -/

section Step

variable {s : Pipeline} {i : PipelineIn} {insn : Insn}

theorem isLsu_iff : isLsu insn = true ↔ lsuOp insn ≠ .nop := by
  simp only [isLsu, lsuOp]
  generalize opcode insn = op
  revert op
  decide

/-- A load is a load or store. -/
theorem isLsu_of_load (h : rfwbOp insn = .lsu) : isLsu insn = true := by
  rw [rfwbOp] at h
  split_ifs at h with _ _ hop
  simp only [List.mem_cons, List.not_mem_nil, or_false] at hop
  rcases hop with hop | hop | hop | hop | hop <;> simp [isLsu, hop]

theorem multicycle_of_isLsu (h : isLsu insn = true) : multicycle insn = 0 := by
  simp only [isLsu, decide_eq_true_eq, List.mem_cons, List.not_mem_nil, or_false] at h
  rcases h with h | h | h | h | h | h | h | h <;> simp [multicycle, h]

/-- An access is requested as long as its instruction is in EX and there is no acknowledge. -/
theorem Pipeline.Decoded.dcpuCycstb (h : Decoded s) (hal : s.lsu.exceptAlign = false) :
    s.dcpuCycstb i = (!i.dcpuAck && isLsu s.exInsn) := by
  have hop : decide (s.lsu.exLsuOp ≠ .nop) = isLsu s.exInsn := by
    rw [h.lsuOp, Bool.eq_iff_iff, decide_eq_true_eq, isLsu_iff]
  simp only [Pipeline.dcpuCycstb, Lsu.dcpuCycstb, hal, hop, Bool.false_or, Bool.or_false]

theorem Pipeline.Decoded.frozen_of_no_ack (h : Decoded s) (hal : s.lsu.exceptAlign = false)
    (hl : isLsu s.exInsn = true) (ha : i.dcpuAck = false) : s.freeze i = true := by
  have hreq : s.dcpuCycstb i = true := by
    rw [h.dcpuCycstb hal, ha, hl]
    rfl
  simp [freeze, lsuStall, Lsu.lsuStall_of_cycstb hreq]

/-- In the cycle of the acknowledge only the multiply unit can hold a load or store. -/
theorem Pipeline.Decoded.freeze_of_ack (h : Decoded s) (hl : isLsu s.exInsn = true)
    (ha : i.dcpuAck = true) : s.freeze i = s.mac.macStallR := by
  have hcnt : s.multicycleCnt = 0 := by
    by_contra hc
    exact h.counts hc (multicycle_of_isLsu hl)
  simp [freeze, lsuStall, Lsu.lsuStall, ha, hcnt]

/-- The result of a load is the aligned data of the port. -/
theorem Pipeline.Decoded.muxout_of_load (h : Decoded s) (hl : Or1200.rfwbOp s.exInsn = .lsu) :
    s.ops.muxout (s.opsIn i) =
      mem2reg (Or1200.lsuOp s.exInsn) (s.lsu.dcpuAdrR.setWidth 2) i.dcpuDat := by
  rw [Operands.muxout, h.rfwbOp, hl, ← h.lsuOp]
  rfl

end Step

/-! ### Runs -/

section Run

variable (R : Pipeline.machine.Run)

/-- A data port that acknowledges every request, at least one cycle after it appears. -/
structure DataPort : Prop where
  after : ∀ t, (R.input t).dcpuAck = true →
    ∃ n, n + 1 = t ∧ (R.state n).dcpuCycstb (R.input n) = true
  answers : ∀ t, (R.state t).dcpuCycstb (R.input t) = true →
    ∃ u, t < u ∧ (R.input u).dcpuAck = true

/-- The low two bits of `dcpu_adr_o`. -/
def lowAdr (s : Pipeline) : BitVec 2 := s.lsu.dcpuAdrR.setWidth 2

/-- Every load or store that enters EX leaves it, gets exactly one acknowledge there, and a load
    leaves the data of that acknowledge in its destination. -/
structure OnceEach : Prop where
  leaves : ∀ a, EntersEx R a → isLsu (R.state a).exInsn = true → ∃ b, Passes R a b
  once : ∀ a b, Passes R a b → isLsu (R.state a).exInsn = true →
    ∃! t, a ≤ t ∧ t ≤ b ∧ (R.input t).dcpuAck = true
  loads : ∀ a b t, Passes R a b → rfwbOp (R.state a).exInsn = .lsu → a ≤ t → t ≤ b →
    (R.input t).dcpuAck = true →
    (R.state (b + 1)).ops.mem (rfAddrw (R.state a).exInsn) =
      if rfAddrw (R.state a).exInsn = 0 then 0
      else mem2reg (lsuOp (R.state a).exInsn) (lowAdr (R.state t)) (R.input t).dcpuDat

variable {R} {a b t : ℕ}

/-- A load or store in EX has entered it. -/
theorem entered (hl : isLsu (R.state t).exInsn = true) :
    ∃ a, a ≤ t ∧ EntersEx R a ∧ ∀ n, a ≤ n → n < t → Frozen R n := by
  induction t with
  | zero =>
    rw [show R.state 0 = reset from R.start] at hl
    exact absurd hl (by decide)
  | succ t ih =>
    by_cases hf : Frozen R t
    · rw [hf.exInsn] at hl
      obtain ⟨a, hat, ha, hw⟩ := ih hl
      refine ⟨a, by omega, ha, fun n h1 h2 => ?_⟩
      rcases Nat.lt_or_eq_of_le (Nat.le_of_lt_succ h2) with h3 | rfl
      · exact hw n h1 h3
      · exact hf
    · exact ⟨t + 1, le_rfl, ⟨t, rfl, hf⟩, fun n h1 h2 => by omega⟩

section Aligned

variable (hal : ∀ t, (R.state t).lsu.exceptAlign = false)
include hal

/-- Without an acknowledge a load or store stays. -/
theorem frozen_of_no_ack (hl : isLsu (R.state t).exInsn = true)
    (ha : (R.input t).dcpuAck = false) : Frozen R t :=
  (decoded_run R t).frozen_of_no_ack (hal t) hl ha

/-- It leaves in the cycle of an acknowledge. -/
theorem Passes.ack (h : Passes R a b) (hl : isLsu (R.state a).exInsn = true) :
    (R.input b).dcpuAck = true := by
  by_contra ha
  rw [Bool.not_eq_true] at ha
  exact h.leaves (frozen_of_no_ack hal (stays h.le h.waits ▸ hl) ha)

/-- An acknowledge finds a load or store in EX. -/
theorem isLsu_of_ack (hp : DataPort R) (ha : (R.input t).dcpuAck = true) :
    isLsu (R.state t).exInsn = true := by
  obtain ⟨n, rfl, hreq⟩ := hp.after t ha
  rw [(decoded_run R n).dcpuCycstb (hal n), Bool.and_eq_true, Bool.not_eq_true'] at hreq
  rw [(frozen_of_no_ack hal hreq.2 hreq.1).exInsn]
  exact hreq.2

/-- A load or store leaves with the first acknowledge that the multiply unit does not hold. -/
theorem once_of_no_stall (hp : DataPort R)
    (hok : ∀ t, (R.input t).dcpuAck = true → (R.state t).mac.macStallR = false) : OnceEach R := by
  have hleave : ∀ t, isLsu (R.state t).exInsn = true → (R.input t).dcpuAck = true →
      ¬ Frozen R t := by
    intro t hl ha
    rw [Frozen, (decoded_run R t).freeze_of_ack hl ha, hok t ha]
    exact Bool.false_ne_true
  have honly : ∀ a b t, Passes R a b → isLsu (R.state a).exInsn = true → a ≤ t → t ≤ b →
      (R.input t).dcpuAck = true → t = b := by
    intro a b t hab hl h1 h2 ha
    by_contra hne
    have hlt : t < b := by omega
    have hlt' : isLsu (R.state t).exInsn = true :=
      stays h1 (fun n h3 h4 => hab.waits n h3 (by omega)) ▸ hl
    exact hleave t hlt' ha (hab.waits t h1 hlt)
  refine ⟨fun a ha hl => ?_, fun a b hab hl => ?_, fun a b t hab hld h1 h2 hat => ?_⟩
  · -- the request goes on until the port answers it
    have hex : ∃ b, a ≤ b ∧ ¬ Frozen R b := by
      by_contra hno
      push Not at hno
      have hstay : ∀ n, a ≤ n → isLsu (R.state n).exInsn = true := fun n hn =>
        stays hn (fun m hm _ => hno m hm) ▸ hl
      have hnone : ∀ n, a ≤ n → (R.input n).dcpuAck = false := by
        intro n hn
        by_contra hne
        exact hleave n (hstay n hn) (by simpa using hne) (hno n hn)
      have hreq : (R.state a).dcpuCycstb (R.input a) = true := by
        rw [(decoded_run R a).dcpuCycstb (hal a), hnone a le_rfl, hl]
        rfl
      obtain ⟨u, hu, hack⟩ := hp.answers a hreq
      simp [hnone u (by omega)] at hack
    obtain ⟨b, hab, hb, hw⟩ := first_time hex
    exact ⟨b, ha, hab, fun n h1 h2 => not_not.1 (hw n h1 h2), hb⟩
  · refine ⟨b, ⟨hab.le, le_rfl, hab.ack hal hl⟩, ?_⟩
    rintro t ⟨h1, h2, ha⟩
    exact honly a b t hab hl h1 h2 ha
  · obtain rfl := honly a b t hab (isLsu_of_load hld) h1 h2 hat
    have hd := decoded_run R t
    have hins : (R.state t).exInsn = (R.state a).exInsn := stays hab.le hab.waits
    rw [← hins] at hld ⊢
    have hw : (rfwbOp (R.state t).exInsn).we = true := by rw [hld]; rfl
    rw [pipeline_succ, hd.clk_mem (by simpa [Frozen] using hab.leaves) hw, hd.muxout_of_load hld]
    rfl

/-- An acknowledge that the multiply unit holds is followed by a second one. -/
theorem no_stall_of_once (hp : DataPort R) (h : OnceEach R) (ha : (R.input t).dcpuAck = true) :
    (R.state t).mac.macStallR = false := by
  by_contra hst
  rw [Bool.not_eq_false] at hst
  have hl := isLsu_of_ack hal hp ha
  have hfr : Frozen R t := ((decoded_run R t).freeze_of_ack hl ha).trans hst
  obtain ⟨a, hat, hen, hw⟩ := entered hl
  have hla : isLsu (R.state a).exInsn = true := stays hat hw ▸ hl
  obtain ⟨b, hab⟩ := h.leaves a hen hla
  have hlt : t < b := by
    by_contra hle
    rcases Nat.lt_or_eq_of_le (Nat.le_of_not_lt hle) with hbt | rfl
    · exact hab.leaves (hw b hab.le hbt)
    · exact hab.leaves hfr
  obtain ⟨u, -, huniq⟩ := h.once a b hab hla
  have h1 := huniq t ⟨hat, by omega, ha⟩
  have h2 := huniq b ⟨hab.le, le_rfl, hab.ack hal hla⟩
  omega

end Aligned

variable (R)

/-- Every load or store is executed exactly once if and only if the multiply unit does not stall in
    the cycle of an acknowledge. -/
theorem once_each_iff (hp : DataPort R) (hal : ∀ t, (R.state t).lsu.exceptAlign = false) :
    OnceEach R ↔ ∀ t, (R.input t).dcpuAck = true → (R.state t).mac.macStallR = false :=
  ⟨fun h _ ha => no_stall_of_once hal hp h ha, once_of_no_stall hal hp⟩

end Run

/-! ### A load before l.macrc -/

/-- l.mac or l.nop, l.lwz, l.macrc. The data port acknowledges after one cycle. -/
def loadInput (mac : Bool) (t : ℕ) : PipelineIn where
  ifInsn :=
    if t = 0 then (if mac then 0xC4000001 else 0x15000000)
    else if t = 1 then 0x84600000
    else if t = 2 then 0x18810000
    else 0x15000000
  ifStall := false
  dcpuAck := decide (t = 4) || (mac && decide (t = 6))
  dcpuDat := 42
  aluOther := 0
  sprsDataout := 0
  exPc := 0
  supv := true

def loadRun (mac : Bool) : Pipeline.machine.Run :=
  .ofInput Pipeline.reset (loadInput mac) rfl fun _ => trivial

/-- No load or store is in ID or EX. -/
structure Pipeline.Quiet (s : Pipeline) : Prop where
  idInsn : lsuOp s.ops.idInsn = .nop
  exLsuOp : s.lsu.exLsuOp = .nop
  exceptAlign : s.lsu.exceptAlign = false

theorem Pipeline.Quiet.clk {s : Pipeline} {i : PipelineIn} (h : Quiet s)
    (hi : lsuOp i.ifInsn = .nop) : Quiet (s.clk i) := by
  refine ⟨?_, ?_, ?_⟩
  · rw [clk_idInsn]
    split
    · exact h.idInsn
    · exact hi
  · simp only [Pipeline.clk, Lsu.clk, exLatch_opsIn, h.idInsn, h.exLsuOp, ite_self]
  · simp [Pipeline.clk, Lsu.clk, exLatch_opsIn, h.idInsn, h.exceptAlign, misaligned]

theorem loadRun_quiet (mac : Bool) {t : ℕ} (ht : 7 ≤ t) : Quiet ((loadRun mac).state t) := by
  induction t, ht using Nat.le_induction with
  | base => cases mac <;> exact ⟨by decide, by decide, by decide⟩
  | succ t ht ih =>
    rw [pipeline_succ]
    refine ih.clk ?_
    have h0 : ¬ t = 0 := by omega
    have h1 : ¬ t = 1 := by omega
    have h2 : ¬ t = 2 := by omega
    simp only [loadRun, Machine.Run.ofInput, loadInput, h0, h1, h2, if_false]
    decide

theorem loadRun_aligned (mac : Bool) (t : ℕ) :
    ((loadRun mac).state t).lsu.exceptAlign = false := by
  rcases Nat.lt_or_ge t 7 with ht | ht
  · cases mac <;> interval_cases t <;> decide
  · exact (loadRun_quiet mac ht).exceptAlign

theorem loadRun_ack {mac : Bool} {t : ℕ} (h : ((loadRun mac).input t).dcpuAck = true) :
    t = 4 ∨ (mac = true ∧ t = 6) := by
  simpa [loadRun, Machine.Run.ofInput, loadInput] using h

theorem loadRun_port (mac : Bool) : DataPort (loadRun mac) where
  after t ha := by
    rcases loadRun_ack ha with rfl | ⟨rfl, rfl⟩
    · exact ⟨3, rfl, by cases mac <;> decide⟩
    · exact ⟨5, rfl, by decide⟩
  answers t hreq := by
    rcases Nat.lt_or_ge t 4 with ht | ht
    · exact ⟨4, ht, by cases mac <;> decide⟩
    · -- after the first acknowledge only the run with l.mac requests again
      cases mac with
      | true =>
        rcases Nat.lt_or_ge t 6 with ht' | ht'
        · exact ⟨6, ht', by decide⟩
        · rcases Nat.eq_or_lt_of_le ht' with rfl | ht'
          · exact absurd hreq (by decide)
          · simp [dcpuCycstb, Lsu.dcpuCycstb, (loadRun_quiet true ht').exLsuOp] at hreq
      | false =>
        rcases Nat.lt_or_ge t 7 with ht' | ht'
        · interval_cases t <;> exact absurd hreq (by decide)
        · simp [dcpuCycstb, Lsu.dcpuCycstb, (loadRun_quiet false ht').exLsuOp] at hreq

/-- Without l.mac the load is executed once. -/
theorem once_each_iff_nop : DataPort (loadRun false) ∧ OnceEach (loadRun false) := by
  refine ⟨loadRun_port false, (once_each_iff _ (loadRun_port false) (loadRun_aligned false)).2 ?_⟩
  intro t ha
  rcases loadRun_ack ha with rfl | ⟨h, -⟩
  · decide
  · cases h

/-- With l.mac the load is in EX from cycle 3 to cycle 6 and gets two acknowledges. -/
theorem load_acked_twice :
    DataPort (loadRun true) ∧ (∀ t, ((loadRun true).state t).lsu.exceptAlign = false) ∧
    isLsu ((loadRun true).state 3).exInsn = true ∧ Passes (loadRun true) 3 6 ∧
    ((loadRun true).input 4).dcpuAck = true ∧ ((loadRun true).input 6).dcpuAck = true ∧
    ¬ OnceEach (loadRun true) := by
  have hpass : Passes (loadRun true) 3 6 := by
    refine ⟨⟨2, rfl, ?_⟩, by decide, fun n h1 h2 => ?_, ?_⟩
    · decide
    · interval_cases n <;> decide
    · decide
  have hl : isLsu ((loadRun true).state 3).exInsn = true := by decide
  refine ⟨loadRun_port true, loadRun_aligned true, hl, hpass, by decide, by decide, fun h => ?_⟩
  obtain ⟨u, -, huniq⟩ := h.once 3 6 hpass hl
  have h4 := huniq 4 ⟨by decide, by decide, by decide⟩
  have h6 := huniq 6 ⟨by decide, by decide, by decide⟩
  omega

end DsdOrsoc.Or1200
