import DsdOrsoc.Uart.Regs

/-! Bus accesses to the UART: the Wishbone interface `uart_wb` (32-bit bus, big endian) in front of
    the register file. The interface samples the bus, answers in the cycle after the sample and
    strobes the registers in one cycle only, that of the sample (`wre`):

        cycle            a        a+1      a+2      a+3      a+4
        bus              access   access   access   -
        sample           -        access   access   access   -
        wbstate          0        0        1        2        0
        we_o, re_o       .        1        .        .        .
        wb_ack_o         .        .        1        .        .
        rf_pop, tf_push  .        .        1        .        .

    The master may begin the next access in cycle a+4, when the sample is empty. -/

namespace DsdOrsoc.Uart
open Schemes

/-- The Wishbone inputs. -/
structure WbPins where
  adr : BitVec 5
  dat : BitVec 32
  sel : BitVec 4
  we : Bool
  stb : Bool
  cyc : Bool
  deriving DecidableEq

namespace WbPins

variable (p : WbPins)

def req : Bool := p.stb && p.cyc

/-- `wb_dat8_i`: the byte of the selected lane. -/
def dat8 : BitVec 8 :=
  match p.sel with
  | 0b0001 => p.dat.extractLsb' 0 8
  | 0b0010 => p.dat.extractLsb' 8 8
  | 0b0100 => p.dat.extractLsb' 16 8
  | 0b1000 => p.dat.extractLsb' 24 8
  | _ => p.dat.extractLsb' 0 8

/-- `wb_adr_int_lsb`. -/
def adrIntLsb : BitVec 2 :=
  match p.sel with
  | 0b0001 => 3
  | 0b0010 => 2
  | 0b0100 => 1
  | 0b1000 => 0
  | _ => 0

/-- `wb_adr_int`. -/
def adrInt : BitVec 5 := p.adr.extractLsb' 2 3 ++ p.adrIntLsb

/-- A read of the receive buffer, or of the divisor latch under DLAB. -/
def ReadsRb : Prop := p.we = false ∧ p.adrInt = 0

/-- A write of the transmit register, or of the divisor latch under DLAB. -/
def WritesTr : Prop := p.we = true ∧ p.adrInt = 0

end WbPins

/-- The registers of `uart_wb`; `is` are the sampled inputs `wb_adr_is` to `wb_cyc_is`. -/
structure UartWb where
  wbAckO : Bool
  wbstate : BitVec 2
  wre : Bool
  is : WbPins

namespace UartWb

variable (s : UartWb)

def weO : Bool := s.is.we && s.is.stb && s.is.cyc && s.wre

def reO : Bool := !s.is.we && s.is.stb && s.is.cyc && s.wre

def reset : UartWb where
  wbAckO := false
  wbstate := 0
  wre := true
  is := ⟨0, 0, 0, false, false, false⟩

/-- One rising edge of the clock. -/
def clk (p : WbPins) : UartWb :=
  match s.wbstate with
  | 0 =>
    if s.is.stb && s.is.cyc then { wbAckO := true, wbstate := 1, wre := false, is := p }
    else { wbAckO := false, wbstate := 0, wre := true, is := p }
  | 1 => { wbAckO := false, wbstate := 2, wre := false, is := p }
  | _ => { wbAckO := false, wbstate := 0, wre := false, is := p }

end UartWb

/-- The interface with the register file. -/
structure UartBus where
  wb : UartWb
  regs : Regs

/-- The bus and the receiver. -/
structure UartBusIn where
  pins : WbPins
  rfPush : Bool
  rfDataIn : RecWord

namespace UartBus

variable (s : UartBus) (i : UartBusIn)

/-- The register access of a cycle, as `uart_top` connects it. -/
@[simps] def regsIn : RegsIn where
  wbAddrI := s.wb.is.adrInt
  wbDatI := s.wb.is.dat8
  wbWeI := s.wb.weO
  wbReI := s.wb.reO
  rfPush := i.rfPush
  rfDataIn := i.rfDataIn

/-- One rising edge of the clock. -/
def clk : UartBus where
  wb := s.wb.clk i.pins
  regs := s.regs.clk (s.regsIn i)

/-- From reset, with any bus and any received bytes. -/
def machine : Machine UartBus UartBusIn where
  start s := s.wb = UartWb.reset ∧ s.regs.Reset
  legal _ _ := True
  step := clk

end UartBus

section Run

variable (R : UartBus.machine.Run)

/-- The master holds its access until it is acknowledged and then drops the strobe for at least one
    cycle. -/
structure BusMaster : Prop where
  hold : ∀ t, (R.input t).pins.req = true → (R.state t).wb.wbAckO = false →
    (R.input (t + 1)).pins = (R.input t).pins
  drop : ∀ t, (R.input t).pins.req = true → (R.state t).wb.wbAckO = true →
    (R.input (t + 1)).pins.stb = false

/-- An access begins in cycle `a`. -/
def AccessBegins (a : ℕ) : Prop :=
  (R.input a).pins.req = true ∧ ∀ n, n + 1 = a → (R.input n).pins.req = false

/-! ### Stages of an access -/

/-- The interface is at rest in cycle `t`. -/
structure AtRest (t : ℕ) : Prop where
  wbstate : (R.state t).wb.wbstate = 0
  ack : (R.state t).wb.wbAckO = false
  empty : (R.state t).wb.is.req = false
  quiet : (R.state t).regs.rfPop = false ∧ (R.state t).regs.tfPush = false

/-- The access of cycle `a` is sampled in cycle `a + 1`. -/
structure IsSampled (a : ℕ) : Prop where
  begins : AccessBegins R a
  wbstate : (R.state (a + 1)).wb.wbstate = 0
  ack : (R.state (a + 1)).wb.wbAckO = false
  wre : (R.state (a + 1)).wb.wre = true
  sample : (R.state (a + 1)).wb.is = (R.input a).pins
  held : (R.input (a + 1)).pins = (R.input a).pins
  lcr : (R.state (a + 1)).regs.lcr = (R.state a).regs.lcr
  quiet : (R.state (a + 1)).regs.rfPop = false ∧ (R.state (a + 1)).regs.tfPush = false

/-- It is acknowledged in cycle `a + 2`, with the effect it has. -/
structure IsAcked (a : ℕ) : Prop where
  begins : AccessBegins R a
  wbstate : (R.state (a + 2)).wb.wbstate = 1
  ack : (R.state (a + 2)).wb.wbAckO = true
  wre : (R.state (a + 2)).wb.wre = false
  sample : (R.state (a + 2)).wb.is = (R.input a).pins
  before : (R.input (a + 1)).pins.req = true
  held : (R.input (a + 2)).pins = (R.input a).pins
  pop : (R.state (a + 2)).regs.rfPop = true ↔
    (R.input a).pins.ReadsRb ∧ (R.state a).regs.dlab = false
  push : (R.state (a + 2)).regs.tfPush = true ↔
    (R.input a).pins.WritesTr ∧ (R.state a).regs.dlab = false

/-- It is over in cycle `a + 3`. -/
structure IsOver (a : ℕ) : Prop where
  wbstate : (R.state (a + 3)).wb.wbstate = 2
  ack : (R.state (a + 3)).wb.wbAckO = false
  dropped : (R.input (a + 3)).pins.req = false
  wre : (R.state (a + 3)).wb.wre = false
  quiet : (R.state (a + 3)).regs.rfPop = false ∧ (R.state (a + 3)).regs.tfPush = false

variable {R} {t a : ℕ}

theorem bus_succ (R : UartBus.machine.Run) (t : ℕ) :
    R.state (t + 1) = (R.state t).clk (R.input t) := R.next t

/-- Without the enable the registers are not accessed. -/
theorem clk_quiet {s : UartBus} {i : UartBusIn} (h : (s.wb.is.req && s.wb.wre) = false) :
    ((s.clk i).regs.rfPop = false ∧ (s.clk i).regs.tfPush = false) ∧
      (s.clk i).regs.lcr = s.regs.lcr := by
  have hwe : s.wb.weO = false := by
    rw [UartWb.weO, Bool.and_assoc s.wb.is.we, Bool.and_assoc]
    change (s.wb.is.we && (s.wb.is.req && s.wb.wre)) = false
    rw [h, Bool.and_false]
  have hre : s.wb.reO = false := by
    rw [UartWb.reO, Bool.and_assoc (!s.wb.is.we), Bool.and_assoc]
    change (!s.wb.is.we && (s.wb.is.req && s.wb.wre)) = false
    rw [h, Bool.and_false]
  simp [UartBus.clk, Regs.clk, Regs.fifoRead, hwe, hre]

/-- With it they see the sampled access. -/
theorem clk_effect {s : UartBus} {i : UartBusIn} (hreq : s.wb.is.req = true)
    (hwre : s.wb.wre = true) (hpop : s.regs.rfPop = false) :
    ((s.clk i).regs.rfPop = true ↔ s.wb.is.ReadsRb ∧ s.regs.dlab = false) ∧
      ((s.clk i).regs.tfPush = true ↔ s.wb.is.WritesTr ∧ s.regs.dlab = false) := by
  simp only [WbPins.req, Bool.and_eq_true] at hreq
  have hwe : s.wb.weO = s.wb.is.we := by simp [UartWb.weO, hreq, hwre]
  have hre : s.wb.reO = !s.wb.is.we := by simp [UartWb.reO, hreq, hwre]
  simp [UartBus.clk, Regs.clk, Regs.fifoRead, hwe, hre, hpop, WbPins.ReadsRb, WbPins.WritesTr]

theorem AtRest.next (h : AtRest R t) :
    (R.state (t + 1)).wb =
      { wbAckO := false, wbstate := 0, wre := true, is := (R.input t).pins } := by
  have he := h.empty
  rw [WbPins.req] at he
  rw [bus_succ]
  simp [UartBus.clk, UartWb.clk, h.wbstate, he]

/-- The sample is the bus of the cycle before. -/
theorem sample_succ (t : ℕ) : (R.state (t + 1)).wb.is = (R.input t).pins := by
  rw [bus_succ, UartBus.clk, UartWb.clk]
  split
  · split <;> rfl
  · rfl
  · rfl

/-- A request at rest is a new one. -/
theorem AtRest.begins (h : AtRest R t) (hreq : (R.input t).pins.req = true) :
    AccessBegins R t := by
  refine ⟨hreq, ?_⟩
  rintro n rfl
  rw [← sample_succ]
  exact h.empty

/-- STEP: nothing happens without a request. -/
theorem AtRest.succ (h : AtRest R t) (hreq : (R.input t).pins.req = false) : AtRest R (t + 1) := by
  have hn := h.next
  refine ⟨by rw [hn], by rw [hn], by rw [hn]; exact hreq, ?_⟩
  rw [bus_succ]
  exact (clk_quiet (by rw [h.empty, Bool.false_and])).1

/-- STEP: a request is sampled. -/
theorem AtRest.sampled (h : AtRest R a) (hm : BusMaster R) (hb : AccessBegins R a) :
    IsSampled R a := by
  have hn := h.next
  have hq := clk_quiet (s := R.state a) (i := R.input a) (by rw [h.empty, Bool.false_and])
  rw [← bus_succ] at hq
  exact ⟨hb, by rw [hn], by rw [hn], by rw [hn], by rw [hn], hm.hold a hb.1 h.ack, hq.2, hq.1⟩

/-- STEP: the sample is acknowledged and takes effect. -/
theorem IsSampled.acked (h : IsSampled R a) (hm : BusMaster R) : IsAcked R a := by
  have hreq : (R.state (a + 1)).wb.is.req = true := by
    rw [h.sample]
    exact h.begins.1
  have hreq' : (R.input (a + 1)).pins.req = true := by
    rw [h.held]
    exact h.begins.1
  have hn : (R.state (a + 2)).wb =
      { wbAckO := true, wbstate := 1, wre := false, is := (R.input (a + 1)).pins } := by
    have he := hreq
    rw [WbPins.req] at he
    rw [bus_succ]
    simp [UartBus.clk, UartWb.clk, h.wbstate, he]
  obtain ⟨hpop, hpush⟩ := clk_effect (i := R.input (a + 1)) hreq h.wre h.quiet.1
  rw [← bus_succ, h.sample, Regs.dlab, h.lcr] at hpop hpush
  exact ⟨h.begins, by rw [hn], by rw [hn], by rw [hn], by rw [hn, h.held], hreq',
    (hm.hold (a + 1) hreq' h.ack).trans h.held, hpop, hpush⟩

/-- STEP: the strobe is dropped while the sample is still there. -/
theorem IsAcked.over (h : IsAcked R a) (hm : BusMaster R) : IsOver R a := by
  have hn : (R.state (a + 3)).wb =
      { wbAckO := false, wbstate := 2, wre := false, is := (R.input (a + 2)).pins } := by
    rw [bus_succ]
    simp [UartBus.clk, UartWb.clk, h.wbstate]
  have hdrop : (R.input (a + 3)).pins.stb = false :=
    hm.drop (a + 2) (by rw [h.held]; exact h.begins.1) h.ack
  refine ⟨by rw [hn], by rw [hn], by rw [WbPins.req, hdrop, Bool.false_and], by rw [hn], ?_⟩
  rw [bus_succ]
  exact (clk_quiet (by rw [h.wre, Bool.and_false])).1

/-- STEP: the interface is ready for the next access. -/
theorem IsOver.rest (h : IsOver R a) : AtRest R (a + 4) := by
  have hn : (R.state (a + 4)).wb =
      { wbAckO := false, wbstate := 0, wre := false, is := (R.input (a + 3)).pins } := by
    rw [bus_succ]
    simp [UartBus.clk, UartWb.clk, h.wbstate]
  refine ⟨by rw [hn], by rw [hn], by rw [hn]; exact h.dropped, ?_⟩
  rw [bus_succ]
  exact (clk_quiet (by rw [h.wre, Bool.and_false])).1

/-- The stage of a cycle. -/
inductive Stage (R : UartBus.machine.Run) : ℕ → Prop
  | rest {t : ℕ} : AtRest R t → Stage R t
  | sampled {a : ℕ} : IsSampled R a → Stage R (a + 1)
  | acked {a : ℕ} : IsAcked R a → Stage R (a + 2)
  | done {a : ℕ} : IsOver R a → Stage R (a + 3)

/-- An access can only begin at rest. -/
theorem Stage.begins (h : Stage R t) (hb : AccessBegins R t) : AtRest R t := by
  cases h with
  | rest h => exact h
  | sampled h => exact absurd (hb.2 _ rfl) (by rw [h.begins.1]; exact Bool.noConfusion)
  | acked h => exact absurd (hb.2 _ rfl) (by rw [h.before]; exact Bool.noConfusion)
  | done h => exact absurd hb.1 (by rw [h.dropped]; exact Bool.noConfusion)

/-- RUN: every cycle has a stage. -/
theorem stage_run (hm : BusMaster R) (t : ℕ) : Stage R t := by
  induction t with
  | zero =>
    obtain ⟨hwb, hregs⟩ := R.start
    obtain ⟨-, -, hpop, hpush, -⟩ := hregs.strobes
    exact .rest ⟨by rw [hwb]; rfl, by rw [hwb]; rfl, by rw [hwb]; rfl, hpop, hpush⟩
  | succ t ih =>
    cases ih with
    | rest h =>
      cases hreq : (R.input t).pins.req with
      | false => exact .rest (h.succ hreq)
      | true => exact .sampled (h.sampled hm (h.begins hreq))
    | sampled h => exact .acked (h.acked hm)
    | acked h => exact .done (h.over hm)
    | done h => exact .rest h.rest

/-- An access is acknowledged two cycles after it begins. -/
theorem AccessBegins.acked (hb : AccessBegins R a) (hm : BusMaster R) : IsAcked R a :=
  (((stage_run hm a).begins hb).sampled hm hb).acked hm

/-- Outside an acknowledge there is no strobe. -/
theorem Stage.acked_or_quiet (h : Stage R t) :
    (∃ a, a + 2 = t ∧ IsAcked R a) ∨
      ((R.state t).wb.wbAckO = false ∧ (R.state t).regs.rfPop = false ∧
        (R.state t).regs.tfPush = false) := by
  cases h with
  | rest h => exact .inr ⟨h.ack, h.quiet⟩
  | sampled h => exact .inr ⟨h.ack, h.quiet⟩
  | acked h => exact .inl ⟨_, rfl, h⟩
  | done h => exact .inr ⟨h.ack, h.quiet⟩

/-- A signal that only an acknowledged access drives. -/
theorem driven_iff (hm : BusMaster R) {f : UartBus → Bool} {e : ℕ → Prop}
    (hacked : ∀ a, IsAcked R a → (f (R.state (a + 2)) = true ↔ e a))
    (hquiet : ∀ t, (R.state t).wb.wbAckO = false → (R.state t).regs.rfPop = false →
      (R.state t).regs.tfPush = false → f (R.state t) = false) (t : ℕ) :
    f (R.state t) = true ↔ ∃ a, a + 2 = t ∧ AccessBegins R a ∧ e a := by
  constructor
  · intro hf
    rcases (stage_run hm t).acked_or_quiet with ⟨a, rfl, h⟩ | ⟨h1, h2, h3⟩
    · exact ⟨a, rfl, h.begins, (hacked a h).1 hf⟩
    · rw [hquiet t h1 h2 h3] at hf
      cases hf
  · rintro ⟨a, rfl, hb, he⟩
    exact (hacked a (hb.acked hm)).2 he

/-- One access, one side effect: an access is acknowledged in the third of its cycles and in no
    other; the cycles with `rf_pop` are those of the acknowledged reads of the receive buffer, the
    cycles with `tf_push` those of the acknowledged writes of the transmit register, and the byte
    pushed is that of the selected lane. -/
theorem one_access_one_effect (R : UartBus.machine.Run) (hm : BusMaster R) :
    (∀ t, (R.state t).wb.wbAckO = true ↔ ∃ a, a + 2 = t ∧ AccessBegins R a) ∧
    (∀ t, (R.state t).regs.rfPop = true ↔ ∃ a, a + 2 = t ∧ AccessBegins R a ∧
      (R.input a).pins.ReadsRb ∧ (R.state a).regs.dlab = false) ∧
    (∀ t, (R.state t).regs.tfPush = true ↔ ∃ a, a + 2 = t ∧ AccessBegins R a ∧
      (R.input a).pins.WritesTr ∧ (R.state a).regs.dlab = false) ∧
    (∀ a, AccessBegins R a →
      ((R.state (a + 2)).regsIn (R.input (a + 2))).wbDatI = (R.input a).pins.dat8 ∧
      ∀ lane, lane < 4 → (R.input a).pins.sel = 1 <<< lane →
        (R.input a).pins.dat8 = (R.input a).pins.dat.extractLsb' (8 * lane) 8) := by
  refine ⟨fun t => ?_, ?_, ?_, fun a hb => ⟨?_, fun lane hl hsel => ?_⟩⟩
  · have h := driven_iff hm (f := fun s => s.wb.wbAckO) (e := fun _ => True)
      (fun a h => iff_true_intro h.ack) (fun _ h _ _ => h) t
    simpa only [and_true] using h
  · exact driven_iff hm (f := fun s => s.regs.rfPop) (fun a h => h.pop) (fun _ _ h _ => h)
  · exact driven_iff hm (f := fun s => s.regs.tfPush) (fun a h => h.push) (fun _ _ _ h => h)
  · rw [UartBus.regsIn_wbDatI, (hb.acked hm).sample]
  · rw [WbPins.dat8, hsel]
    interval_cases lane <;> rfl

end Run

/-- One access to the first byte of the UART, in cycles 1 to 3. -/
def accessInput (we : Bool) (t : ℕ) : UartBusIn where
  pins :=
    if 1 ≤ t ∧ t ≤ 3 then ⟨0, 0x41000000, 0b1000, we, true, true⟩
    else ⟨0, 0, 0, false, false, false⟩
  rfPush := false
  rfDataIn := 0

def accessRun (we : Bool) : UartBus.machine.Run :=
  .ofInput ⟨UartWb.reset, Regs.init⟩ (accessInput we) ⟨rfl, Regs.reset_init⟩ fun _ => trivial

theorem accessRun_req {we : Bool} {t : ℕ} (h : ((accessRun we).input t).pins.req = true) :
    t = 1 ∨ t = 2 ∨ t = 3 := by
  by_contra hne
  have hout : ¬ (1 ≤ t ∧ t ≤ 3) := by omega
  simp [accessRun, Machine.Run.ofInput, accessInput, hout, WbPins.req] at h

theorem accessRun_master (we : Bool) : BusMaster (accessRun we) where
  hold t hreq hack := by
    rcases accessRun_req hreq with rfl | rfl | rfl
    · rfl
    · rfl
    · cases we <;> exact absurd hack (by decide)
  drop t hreq hack := by
    rcases accessRun_req hreq with rfl | rfl | rfl
    · cases we <;> exact absurd hack (by decide)
    · cases we <;> exact absurd hack (by decide)
    · rfl

/-- A write pushes its byte, and a read pops, each in the cycle of the acknowledge. -/
theorem one_access_one_effect_once :
    ((accessRun true).state 3).regs.tfPush = true ∧
      (((accessRun true).state 3).regsIn ((accessRun true).input 3)).wbDatI = 0x41 ∧
      ((accessRun false).state 3).regs.rfPop = true := by
  have hb : ∀ we, AccessBegins (accessRun we) 1 := by
    intro we
    refine ⟨rfl, fun n hn => ?_⟩
    obtain rfl : n = 0 := by omega
    rfl
  obtain ⟨-, -, hpush, hdat⟩ := one_access_one_effect _ (accessRun_master true)
  obtain ⟨-, hpop, -, -⟩ := one_access_one_effect _ (accessRun_master false)
  refine ⟨(hpush 3).2 ⟨1, rfl, hb true, ⟨rfl, by decide⟩, by decide⟩, ?_,
    (hpop 3).2 ⟨1, rfl, hb false, ⟨rfl, by decide⟩, by decide⟩⟩
  exact (hdat 1 (hb true)).1

end DsdOrsoc.Uart
