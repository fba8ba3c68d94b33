import DsdOrsoc.Schemes.Machine

/-! The bus interface unit `or1200_wb_biu` in the shipped configuration: registered outputs, no
    bursts, no retry, no registered inputs, equal clocks. When the core drops a request before its
    end, the unit is to complete the transfer on the bus by itself (`aborted`). The six output
    registers have five update conditions, and the core may come back with another request while
    the abandoned transfer is still pending:

        biu request      A    -    B    B           - : dropped
        wb_stb_o         .    1    1    1
        wb_adr_o         .    A    A    A           guarded by wb_stb_o
        wb_we_o          .    A    A    B           follows the new request
        wb_dat_o         .    A    A    B           follows the new request
        wb_sel_o         .    A    ?    B           follows the pins in every cycle -/

namespace DsdOrsoc.Or1200
open Schemes

/-- The registers of the unit. -/
structure WbBiu where
  wbAdrO : BitVec 32
  wbDatO : BitVec 32
  wbCycO : Bool
  wbStbO : Bool
  wbWeO : Bool
  wbSelO : BitVec 4
  abortedR : Bool

/-- The input pins: the request of the core and the termination of the bus. -/
structure WbBiuIn where
  biuAdrI : BitVec 32
  biuDatI : BitVec 32
  biuCycI : Bool
  biuStbI : Bool
  biuWeI : Bool
  biuSelI : BitVec 4
  wbAckI : Bool
  wbErrI : Bool

/-- The core requests. -/
def WbBiuIn.req (i : WbBiuIn) : Bool := i.biuCycI && i.biuStbI

/-- The bus terminates the transfer. -/
def WbBiuIn.done (i : WbBiuIn) : Bool := i.wbAckI || i.wbErrI

namespace WbBiu

def reset : WbBiu where
  wbAdrO := 0
  wbDatO := 0
  wbCycO := false
  wbStbO := false
  wbWeO := false
  wbSelO := 0
  abortedR := false

variable (s : WbBiu) (i : WbBiuIn)

/-- The core has dropped the request of a transfer that is not terminated. -/
def aborted : Bool := s.wbStbO && !i.req && !i.done

/-- One rising edge of the clock. -/
def clk : WbBiu where
  wbAdrO :=
    if i.req && !i.wbAckI && !s.aborted i && !(s.wbStbO && !i.wbAckI) then i.biuAdrI else s.wbAdrO
  wbDatO := if i.req && !i.wbAckI && !s.aborted i then i.biuDatI else s.wbDatO
  wbCycO := i.biuCycI && !i.wbAckI || s.aborted i && !i.wbAckI
  wbStbO := i.req && !i.wbAckI || s.aborted i && !i.wbAckI
  wbWeO := i.req && i.biuWeI || s.aborted i && s.wbWeO
  wbSelO := i.biuSelI
  abortedR := if i.done then false else if s.aborted i then true else s.abortedR

/-- The termination as the core sees it: that of an abandoned transfer is kept from it. -/
def biuAckO : Bool := i.wbAckI && !s.abortedR

def biuErrO : Bool := i.wbErrI && !s.abortedR

/-- The unit between any core and any bus. -/
def machine : Machine WbBiu WbBiuIn where
  start s := s = reset
  legal _ _ := True
  step := clk

/-! ### One pending cycle -/

variable {s i}

/-- `wb_stb_o` is only asserted together with `wb_cyc_o`. -/
theorem clk_cyc_of_stb (h : (s.clk i).wbStbO = true) : (s.clk i).wbCycO = true := by
  simp only [clk, WbBiuIn.req, Bool.or_eq_true, Bool.and_eq_true] at h ⊢
  rcases h with ⟨⟨hc, -⟩, ha⟩ | h
  · exact .inl ⟨hc, ha⟩
  · exact .inr h

/-- A pending transfer goes on, at the same address. -/
theorem clk_pending (hs : s.wbStbO = true) (hd : i.done = false) :
    (s.clk i).wbCycO = true ∧ (s.clk i).wbStbO = true ∧ (s.clk i).wbAdrO = s.wbAdrO := by
  have ha : i.wbAckI = false := by
    simp only [WbBiuIn.done, Bool.or_eq_false_iff] at hd
    exact hd.1
  cases hr : i.req with
  | false => simp [clk, aborted, hs, hd, ha, hr]
  | true =>
    have hc : i.biuCycI = true := by
      simp only [WbBiuIn.req, Bool.and_eq_true] at hr
      exact hr.1
    simp [clk, aborted, hs, ha, hr, hc]

theorem clk_we (hs : s.wbStbO = true) (hd : i.done = false) :
    (s.clk i).wbWeO = if i.req then i.biuWeI else s.wbWeO := by
  cases hr : i.req <;> simp [clk, aborted, hs, hd, hr]

theorem clk_dat (hs : s.wbStbO = true) (hd : i.done = false) :
    (s.clk i).wbDatO = if i.req then i.biuDatI else s.wbDatO := by
  have ha : i.wbAckI = false := by
    simp only [WbBiuIn.done, Bool.or_eq_false_iff] at hd
    exact hd.1
  cases hr : i.req <;> simp [clk, aborted, hs, hd, hr, ha]

/-- The core does not disturb the transfer on the bus: the byte selects are those on the bus, and a
    request, new or old, has the direction on the bus and for a write also the data. -/
def Agrees (s : WbBiu) (i : WbBiuIn) : Prop :=
  i.biuSelI = s.wbSelO ∧
    (i.req = true → i.biuWeI = s.wbWeO ∧ (s.wbWeO = true → i.biuDatI = s.wbDatO))

/-- The lines that a slave looks at are equal; write data counts for a write only. -/
def SameLines (s s' : WbBiu) : Prop :=
  s'.wbAdrO = s.wbAdrO ∧ s'.wbWeO = s.wbWeO ∧ s'.wbSelO = s.wbSelO ∧
    (s.wbWeO = true → s'.wbDatO = s.wbDatO)

/-- STEP: the lines stay in a pending cycle exactly if the core agrees with the bus in it. -/
theorem sameLines_clk_iff (hs : s.wbStbO = true) (hd : i.done = false) :
    s.SameLines (s.clk i) ↔ s.Agrees i := by
  obtain ⟨-, -, hadr⟩ := clk_pending hs hd
  have hsel : (s.clk i).wbSelO = i.biuSelI := rfl
  rw [SameLines, Agrees, hadr, hsel, clk_we hs hd, clk_dat hs hd]
  cases hr : i.req with
  | false => simp
  | true => simp; tauto

theorem SameLines.refl (s : WbBiu) : s.SameLines s := ⟨rfl, rfl, rfl, fun _ => rfl⟩

theorem SameLines.trans {a b c : WbBiu} (h : a.SameLines b) (h' : b.SameLines c) :
    a.SameLines c := by
  obtain ⟨h1, h2, h3, h4⟩ := h
  obtain ⟨h1', h2', h3', h4'⟩ := h'
  exact ⟨h1'.trans h1, h2'.trans h2, h3'.trans h3,
    fun hw => (h4' (h2.trans hw)).trans (h4 hw)⟩

theorem SameLines.symm {a b : WbBiu} (h : a.SameLines b) : b.SameLines a := by
  obtain ⟨h1, h2, h3, h4⟩ := h
  exact ⟨h1.symm, h2.symm, h3.symm, fun hw => (h4 (h2.symm.trans hw)).symm⟩

end WbBiu

/-! ### Transfers -/

section Transfer
open WbBiu

variable (R : WbBiu.machine.Run)

/-- `wb_stb_o` rises. -/
def StbRises (t : ℕ) : Prop :=
  (R.state t).wbStbO = true ∧ ∀ n, n + 1 = t → (R.state n).wbStbO = false

/-- The transfer that starts in cycle `a` is not terminated before cycle `b`. -/
def Pending (a b : ℕ) : Prop :=
  StbRises R a ∧ a ≤ b ∧ ∀ n, a ≤ n → n < b → (R.input n).done = false

/-- The hold rule: from the rise of `wb_stb_o` to the cycle with `wb_ack_i` or `wb_err_i`,
    `wb_cyc_o` and `wb_stb_o` are high and the lines do not change. -/
def HoldRule : Prop :=
  ∀ a b, Pending R a b →
    (R.state b).wbCycO = true ∧ (R.state b).wbStbO = true ∧ (R.state a).SameLines (R.state b)

variable {R} {a b : ℕ}

theorem Pending.stb (h : Pending R a b) :
    (R.state b).wbStbO = true ∧ (R.state b).wbAdrO = (R.state a).wbAdrO := by
  obtain ⟨hrise, hab, hn⟩ := h
  induction b, hab using Nat.le_induction with
  | base => exact ⟨hrise.1, rfl⟩
  | succ b hab ih =>
    obtain ⟨hs, hadr⟩ := ih fun n h1 h2 => hn n h1 (by omega)
    obtain ⟨-, hs', hadr'⟩ := clk_pending hs (hn b hab (by omega))
    rw [show R.state (b + 1) = (R.state b).clk (R.input b) from R.next b]
    exact ⟨hs', hadr'.trans hadr⟩

theorem Pending.cyc (h : Pending R a b) : (R.state b).wbCycO = true := by
  have hs := h.stb.1
  cases b with
  | zero =>
    rw [show R.state 0 = reset from R.start] at hs
    cases hs
  | succ b =>
    rw [show R.state (b + 1) = (R.state b).clk (R.input b) from R.next b] at hs ⊢
    exact clk_cyc_of_stb hs

theorem Pending.succ (h : Pending R a b) (hd : (R.input b).done = false) :
    Pending R a (b + 1) := by
  obtain ⟨hrise, hab, hn⟩ := h
  refine ⟨hrise, by omega, fun n h1 h2 => ?_⟩
  rcases Nat.lt_or_eq_of_le (Nat.le_of_lt_succ h2) with h3 | rfl
  · exact hn n h1 h3
  · exact hd

/-- RUN: the lines stay while the core agrees with the bus. -/
theorem Pending.sameLines (h : Pending R a b)
    (hagree : ∀ c, Pending R a c → (R.input c).done = false → (R.state c).Agrees (R.input c)) :
    (R.state a).SameLines (R.state b) := by
  obtain ⟨hrise, hab, hn⟩ := h
  induction b, hab using Nat.le_induction with
  | base => exact SameLines.refl _
  | succ b hab ih =>
    have hp : Pending R a b := ⟨hrise, hab, fun n h1 h2 => hn n h1 (by omega)⟩
    have hd := hn b hab (by omega)
    refine (ih hp.2.2).trans ?_
    rw [show R.state (b + 1) = (R.state b).clk (R.input b) from R.next b]
    exact (sameLines_clk_iff hp.stb.1 hd).2 (hagree b hp hd)

variable (R)

/-- `wb_cyc_o`, `wb_stb_o` and the address keep the hold rule whatever the core does; the whole rule
    is kept in a run if and only if the core agrees with the bus in every cycle of a transfer that
    has not been terminated. -/
theorem holdRule_iff :
    (∀ a b, Pending R a b → (R.state b).wbCycO = true ∧ (R.state b).wbStbO = true ∧
      (R.state b).wbAdrO = (R.state a).wbAdrO) ∧
    (HoldRule R ↔ ∀ a b, Pending R a b → (R.input b).done = false →
      (R.state b).Agrees (R.input b)) := by
  refine ⟨fun a b h => ⟨h.cyc, h.stb⟩, ?_, ?_⟩
  · intro hold a b h hd
    have hb := (hold a b h).2.2
    have hb' := (hold a (b + 1) (h.succ hd)).2.2
    rw [show R.state (b + 1) = (R.state b).clk (R.input b) from R.next b] at hb'
    exact (sameLines_clk_iff h.stb.1 hd).1 (hb.symm.trans hb')
  · intro hagree a b h
    exact ⟨h.cyc, h.stb.1, h.sameLines fun c hc hd => hagree a c hc hd⟩

end Transfer

/-- The core reads a word, drops the request after one cycle and comes back with a byte write to
    another address; the bus does not terminate the read. -/
def reissueInput (t : ℕ) : WbBiuIn where
  biuAdrI := if t ≤ 1 then 0x100 else 0x200
  biuDatI := 42
  biuCycI := decide (t ≠ 1)
  biuStbI := decide (t ≠ 1)
  biuWeI := decide (2 ≤ t)
  biuSelI := if t ≤ 1 then 15 else 1
  wbAckI := false
  wbErrI := false

/-- The pending read becomes a byte write at the address of the read. -/
theorem reissue_breaks_hold : ∃ R : WbBiu.machine.Run, R.input = reissueInput ∧
    (R.state 1).wbStbO = true ∧ (R.state 1).wbWeO = false ∧ (R.state 1).wbSelO = 15 ∧
    (R.state 3).wbAdrO = 0x100 ∧ (R.state 3).wbWeO = true ∧ (R.state 3).wbSelO = 1 ∧
    ¬ HoldRule R := by
  refine ⟨.ofInput WbBiu.reset reissueInput rfl fun _ => trivial, rfl, by decide, by decide,
    by decide, by decide, by decide, by decide, fun h => ?_⟩
  have hrise : StbRises (.ofInput (M := WbBiu.machine) WbBiu.reset reissueInput rfl
      fun _ => trivial) 1 := by
    refine ⟨by decide, fun n hn => ?_⟩
    obtain rfl : n = 0 := by omega
    decide
  have hwe := (h 1 3 ⟨hrise, by decide, fun _ _ _ => rfl⟩).2.2.2.1
  revert hwe
  decide

end DsdOrsoc.Or1200
