import DsdOrsoc.Schemes.Progress
import DsdOrsoc.Uart.Receiver

/-! The serial side of `uart_regs`: the divider that makes the baud enable, the transmitter, the
    receiver and the loopback multiplexer between them. A `Link` is where the line is in a frame and
    what the two FIFOs hold; INVARIANT (`Linked`): the bytes pushed so far are

        delivered ++ receive FIFO ++ being pushed │ on the line ++ transmit FIFO

    with the words already on the left. FAIRNESS of the divider then brings every byte across. -/

namespace DsdOrsoc.Uart
open Schemes

structure Serial where
  tx : Transmitter
  rx : Receiver
  dlc : BitVec 16
  enable : Bool

structure SerialIn where
  lcr : Lcr
  mcr : BitVec 5
  dl : BitVec 16
  startDlc : Bool
  tfPush : Bool
  wbDatI : BitVec 8
  rfPop : Bool
  srxPad : Bool
  txReset : Bool
  rxReset : Bool
  lsrMask : Bool

namespace Serial

variable (s : Serial) (i : SerialIn)

def serialOut : Bool := s.tx.stxPadO i.lcr

/-- `serial_in`: the loopback multiplexer. -/
def serialIn : Bool := if i.mcr.getLsbD 4 then s.serialOut i else i.srxPad

@[simps] def txIn : TransmitterIn where
  lcr := i.lcr
  tfPush := i.tfPush
  wbDatI := i.wbDatI
  enable := s.enable
  txReset := i.txReset
  lsrMask := i.lsrMask

@[simps] def rxIn : ReceiverIn where
  lcr := i.lcr
  rfPop := i.rfPop
  srxPadI := s.serialIn i
  enable := s.enable
  rxReset := i.rxReset
  lsrMask := i.lsrMask

/-- One rising edge of the clock. -/
def clk : Serial where
  tx := s.tx.clk (s.txIn i)
  rx := s.rx.clk (s.rxIn i)
  dlc := if i.startDlc || s.dlc == 0 then i.dl - 1 else s.dlc - 1
  enable := i.dl != 0 && s.dlc == 0

/-- The divider never stops. -/
theorem enable_again {state : ℕ → Serial} {input : ℕ → SerialIn} {dl : BitVec 16}
    (hnext : ∀ t, state (t + 1) = (state t).clk (input t)) (hin : ∀ t, (input t).dl = dl)
    (hstart : ∀ t, (input t).startDlc = false) (hdl : dl ≠ 0) (t : ℕ) :
    ∃ n, t ≤ n ∧ (state n).enable = true := by
  have hzero : ∀ u, (state u).dlc = 0 → (state (u + 1)).enable = true := by
    intro u hu
    rw [hnext, Serial.clk, hin]
    simpa [hu] using hdl
  induction hc : (state t).dlc.toNat generalizing t with
  | zero => exact ⟨t + 1, by omega, hzero t (BitVec.eq_of_toNat_eq hc)⟩
  | succ c ih =>
    have hne : (state t).dlc ≠ 0 := by
      intro h0
      rw [h0] at hc
      cases hc
    have hdlc : (state (t + 1)).dlc = (state t).dlc - 1 := by
      rw [hnext, Serial.clk, hstart]
      simpa using fun h0 => absurd h0 hne
    have := toNat_sub_one hne
    obtain ⟨n, hn, he⟩ := ih (t + 1) (by rw [hdlc]; omega)
    exact ⟨n, by omega, he⟩

/-- Transmitter and receiver are idle and both FIFOs are empty. -/
structure Idle : Prop where
  tstate : s.tx.tstate = .idle
  counter : s.tx.counter = 0
  line : s.tx.stxOTmp = true
  tfPop : s.tx.tfPop = false
  rstate : s.rx.rstate = .idle
  pushed : s.rx.rfPush = true → s.rx.rfPushQ = true
  txEmpty : s.tx.fifo.ptrs.count = 0 ∧ s.tx.fifo.ptrs.top = s.tx.fifo.ptrs.bottom
  rxEmpty : s.rx.fifo.ptrs.count = 0 ∧ s.rx.fifo.ptrs.top = s.rx.fifo.ptrs.bottom

/-- Loopback with a fixed format and divisor: a byte is pushed only while the transmit FIFO is not
    full, and the host pops the receive FIFO only while it is not empty and so that it is not full
    at a push. -/
structure LoopLegal (lcr : Lcr) (dl : BitVec 16) : Prop where
  lcr : i.lcr = lcr
  dl : i.dl = dl
  loopback : i.mcr.getLsbD 4 = true
  startDlc : i.startDlc = false
  txReset : i.txReset = false
  rxReset : i.rxReset = false
  push : i.tfPush = true → s.tx.fifo.ptrs.count ≠ 16
  pop : i.rfPop = true → s.rx.fifo.ptrs.count ≠ 0
  room : s.rx.rfPushPulse = true → s.rx.fifo.ptrs.count ≠ 16

def loopback (lcr : Lcr) (dl : BitVec 16) : Machine Serial SerialIn where
  start := Idle
  legal s i := s.LoopLegal i lcr dl
  step := clk

end Serial

/-! ### The link -/

/-- Where the line is, the byte on it, and the contents of the two FIFOs. -/
structure Link where
  phase : Phase
  byte : BitVec 8
  sending : List (BitVec 8)
  received : List RecWord

/-- The bytes that have not been pushed by the receiver. -/
def Link.ahead (l : Link) (lcr : Lcr) (tfPop : Bool) : List (BitVec 8) :=
  (if l.phase.carries lcr then [l.byte] else []) ++ (if tfPop then l.sending.tail else l.sending)

/-- One clock edge of the link. -/
def Link.next (l : Link) (s : Serial) (i : SerialIn) : Link where
  phase := if s.enable then l.phase.next i.lcr (s.tx.fifo.ptrs.count != 0) else l.phase
  byte :=
    match s.enable, l.phase with
    | true, .pop => s.tx.fifo.dataOut
    | _, _ => l.byte
  sending := queueNext l.sending (s.tx.fifoIn (s.txIn i))
  received := queueNext l.received (s.rx.fifoIn (s.rxIn i))

theorem Link.next_byte {l : Link} (hp : l.phase ≠ .pop) {s : Serial} {i : SerialIn} :
    (l.next s i).byte = l.byte := by
  simp only [Link.next]
  split
  · next hpop => exact absurd hpop hp
  · rfl

/-- The item on its way into the receive FIFO. -/
def Receiver.entering (r : Receiver) : List RecWord := if r.rfPushPulse then [r.rfDataIn] else []

/-- INVARIANT: the registers are those of the link, and no byte is lost, doubled or changed. -/
structure Linked (lcr : Lcr) (P : List (BitVec 8)) (D : List RecWord) (l : Link) (s : Serial) :
    Prop where
  tx : TxAt lcr l.byte l.phase s.tx
  rx : RxAt lcr l.byte l.phase s.rx
  quiet : s.rx.rfPush = true → l.phase.rstate lcr = .idle
  armed : l.phase = .start 1 ∨ l.phase = .stop lcr.pushTick → s.rx.counterB ≠ 0
  sending : s.tx.fifo.Rep l.sending
  received : s.rx.fifo.Rep l.received
  popping : s.tx.tfPop = true → l.phase = .start 0 ∧ l.sending ≠ []
  pending : l.phase = .pop → l.sending ≠ []
  flow : P.map (item lcr) =
    D ++ l.received ++ s.rx.entering ++ (l.ahead lcr s.tx.tfPop).map (item lcr)

section Linked

variable {lcr : Lcr} {dl : BitVec 16} {P : List (BitVec 8)} {D : List RecWord} {l : Link}
  {s : Serial}
  {i : SerialIn}

theorem Linked.line (h : Linked lcr P D l s) (hi : s.LoopLegal i lcr dl) (hbc : lcr.bc = false) :
    s.serialIn i = l.phase.line lcr l.byte := by
  rw [Serial.serialIn, hi.loopback, if_pos rfl, Serial.serialOut, hi.lcr, Transmitter.stxPadO, hbc]
  exact h.tx.line

theorem Serial.LoopLegal.feeds (hi : s.LoopLegal i lcr dl) : s.tx.Feeds (s.txIn i) lcr :=
  ⟨hi.lcr, hi.txReset, hi.push⟩

/-- The transmitting half of the link. -/
theorem Linked.sends (h : Linked lcr P D l s) : Sends lcr ⟨l.phase, l.byte, l.sending⟩ s.tx :=
  ⟨h.tx, h.sending, h.popping, h.pending⟩

theorem Linked.sends_next (h : Linked lcr P D l s) (hi : s.LoopLegal i lcr dl) :
    Sends lcr ⟨(l.next s i).phase, (l.next s i).byte, (l.next s i).sending⟩ (s.clk i).tx :=
  h.sends.clk hi.feeds

/-- The receive FIFO after a clock edge. -/
theorem Linked.received_next (h : Linked lcr P D l s) (hi : s.LoopLegal i lcr dl) :
    (s.rx.fifo.clk (s.rx.fifoIn (s.rxIn i))).Rep (l.next s i).received ∧
      (if i.rfPop then [s.rx.fifo.dataOut] else []) ++ (l.next s i).received =
        l.received ++ s.rx.entering := by
  refine ⟨h.received.clk (keeps_of_legal hi.room hi.pop _ _), ?_⟩
  have hq : (l.next s i).received = _ :=
    queueNext_of_legal (i := s.rx.fifoIn (s.rxIn i)) h.received.ptrs hi.rxReset hi.room
  rw [hq, Receiver.entering]
  simp only [Receiver.fifoIn_pop, Serial.rxIn_rfPop, Receiver.fifoIn_push, Receiver.fifoIn_dataIn]
  cases hp : i.rfPop with
  | false => simp
  | true =>
    cases hl : l.received with
    | nil => exact absurd (h.received.ptrs.count_eq_zero.2 hl) (hi.pop hp)
    | cons y ys =>
      rw [h.received.head (x := y) (by rw [hl]; rfl)]
      simp

/-- The bytes pushed in a cycle, and the items popped in it. -/
def SerialIn.new (i : SerialIn) : List (BitVec 8) := if i.tfPush then [i.wbDatI] else []

def Serial.out (s : Serial) (i : SerialIn) : List RecWord :=
  if i.rfPop then [s.rx.fifo.dataOut] else []

/-- The flow over a clock edge, from the items that the receiver pushes in it. -/
theorem Linked.flow_next (h : Linked lcr P D l s) (hi : s.LoopLegal i lcr dl) {r' : Receiver}
    {tfPop' : Bool} (hahead : (l.ahead lcr s.tx.tfPop ++ i.new).map (item lcr) =
      r'.entering ++ ((l.next s i).ahead lcr tfPop').map (item lcr)) :
    (P ++ i.new).map (item lcr) =
      D ++ s.out i ++ (l.next s i).received ++ r'.entering ++
        ((l.next s i).ahead lcr tfPop').map (item lcr) := by
  have hrec : s.out i ++ (l.next s i).received = l.received ++ s.rx.entering :=
    (h.received_next hi).2
  calc (P ++ i.new).map (item lcr)
      = D ++ (l.received ++ s.rx.entering) ++ (l.ahead lcr s.tx.tfPop ++ i.new).map (item lcr) := by
        simp only [List.map_append, h.flow, List.append_assoc]
    _ = _ := by
        rw [← hrec, hahead]
        simp only [List.append_assoc]

theorem Linked.enable_rx (h : Linked lcr P D l s) (hi : s.LoopLegal i lcr dl)
    (hbc : lcr.bc = false) (he : s.enable = true) :
    (s.clk i).rx =
      { s.rx.tick lcr (l.phase.line lcr l.byte) with
        fifo := s.rx.fifo.clk (s.rx.fifoIn (s.rxIn i))
        counterB := s.rx.counterBNext (s.rxIn i)
        rfPushQ := s.rx.rfPush } := by
  simp [Serial.clk, Receiver.clk, he, hi.lcr, h.line hi hbc]

/-- The receiver pushes at one place only. -/
theorem Linked.entering_next (h : Linked lcr P D l s) (hi : s.LoopLegal i lcr dl)
    (hbc : lcr.bc = false) (he : s.enable = true) :
    ((s.clk i).rx.rfPush = true → l.phase = .stop lcr.pushTick) ∧
      (s.clk i).rx.entering =
        if l.phase = .stop lcr.pushTick then [item lcr l.byte] else [] := by
  have hrx := h.enable_rx hi hbc he
  have hq : s.rx.rfPush = true → s.rx.rstate = .idle := fun hp => h.rx.rstate.trans (h.quiet hp)
  have hpush : (s.clk i).rx.rfPush = true → l.phase = .stop lcr.pushTick := by
    intro hp
    rw [hrx] at hp
    exact Phase.rstate_eq_push (h.rx.rstate.symm.trans (Receiver.tick_rfPush hq hp))
  refine ⟨hpush, ?_⟩
  split
  · next hp =>
    have hl : l.phase.line lcr l.byte = true := by
      rw [hp]
      exact Phase.stop_line lcr _ (by have := lcr.pushTick_bounds; omega)
    obtain ⟨h1, h2⟩ := (hp ▸ h.rx).tick_push (h.armed (.inr hp))
    have h3 : s.rx.rfPush = false := by
      by_contra ht
      have := h.quiet (by simpa using ht)
      rw [hp] at this
      simp [Phase.rstate] at this
    rw [hl] at hrx
    simp [hrx, Receiver.entering, Receiver.rfPushPulse, h1, h2, h3]
  · next hp =>
    have h1 : (s.clk i).rx.rfPush = false := by
      by_contra ht
      exact hp (hpush (by simpa using ht))
    simp [Receiver.entering, Receiver.rfPushPulse, h1]

/-- The place of the receiver after a tick. -/
theorem Linked.rx_next (h : Linked lcr P D l s) (hi : s.LoopLegal i lcr dl)
    (hbc : lcr.bc = false) (he : s.enable = true) :
    RxAt lcr (l.next s i).byte (l.next s i).phase (s.clk i).rx := by
  have hnext : (l.next s i).phase = l.phase.next lcr (s.tx.fifo.ptrs.count != 0) := by
    simp [Link.next, he, hi.lcr]
  rw [h.enable_rx hi hbc he, hnext]
  by_cases hp : l.phase = .pop
  · have hbyte : (l.next s i).byte = s.tx.fifo.dataOut := by simp [Link.next, he, hp]
    have hrx := h.rx.tick_idle (.inr hp) true s.tx.fifo.dataOut
    rw [hbyte, hp] at *
    exact hrx.frame _ _ _
  · rw [Link.next_byte hp]
    exact (h.rx.tick h.tx.valid (fun h1 => h.armed (.inl h1)) _).frame _ _ _

/-- The bytes ahead after a clock edge: the one that the receiver pushes leaves them. -/
theorem Linked.ahead_next (h : Linked lcr P D l s) (hi : s.LoopLegal i lcr dl) :
    l.ahead lcr s.tx.tfPop ++ i.new =
      (if s.enable = true ∧ l.phase = .stop lcr.pushTick then [l.byte] else []) ++
        (l.next s i).ahead lcr (s.clk i).tx.tfPop := by
  have hwait : (if s.tx.tfPop then l.sending.tail else l.sending) ++ i.new =
      (if s.enable = true ∧ l.phase = .pop then [(l.next s i).byte] else []) ++
        (if (s.clk i).tx.tfPop then (l.next s i).sending.tail else (l.next s i).sending) :=
    h.sends.waiting_next hi.feeds
  rw [Link.ahead, Link.ahead, List.append_assoc, hwait]
  cases he : s.enable with
  | false => simp [Link.next, he]
  | true =>
    have hnext : (l.next s i).phase = l.phase.next lcr (s.tx.fifo.ptrs.count != 0) := by
      simp [Link.next, he, hi.lcr]
    by_cases hp : l.phase = .pop
    · simp [hnext, hp, Phase.next, Phase.carries]
    · have hbyte : (l.next s i).byte = l.byte := Link.next_byte hp
      by_cases hpush : l.phase = .stop lcr.pushTick
      · simp [hnext, hpush, Phase.next_push, Phase.carries]
      · rw [hnext, Phase.carries_next lcr hp hpush, hbyte]
        simp [hp, hpush]

/-- STEP without the baud enable: the receiver holds. -/
theorem Linked.clk_hold (h : Linked lcr P D l s) (hi : s.LoopLegal i lcr dl) (hbc : lcr.bc = false)
    (he : s.enable = false) :
    Linked lcr (P ++ i.new) (D ++ s.out i) (l.next s i) (s.clk i) := by
  have hl := h.line hi hbc
  have hphase : (l.next s i).phase = l.phase := by simp [Link.next, he]
  have hbyte : (l.next s i).byte = l.byte := by simp [Link.next, he]
  have hrx : (s.clk i).rx =
      { s.rx with
        fifo := s.rx.fifo.clk (s.rx.fifoIn (s.rxIn i))
        counterB := s.rx.counterBNext (s.rxIn i)
        rfPushQ := s.rx.rfPush } := by
    simp [Serial.clk, Receiver.clk, he]
  have hsends := h.sends_next hi
  refine ⟨hsends.place, ?_, ?_, ?_, hsends.queue, (h.received_next hi).1, hsends.popping,
    hsends.pending, ?_⟩
  · rw [hphase, hbyte, hrx]
    exact h.rx.frame _ _ _
  · rw [hphase, hrx]
    exact h.quiet
  · rw [hphase, hrx]
    intro ha
    simp only [Receiver.counterBNext, Serial.rxIn_srxPadI, Serial.rxIn_enable, hl, he]
    split
    · exact brcValue_ne_zero _
    · exact h.armed ha
  · apply h.flow_next hi
    have hent : (s.clk i).rx.entering = [] := by
      simp [hrx, Receiver.entering, Receiver.rfPushPulse]
    rw [h.ahead_next hi, hent]
    simp [he]

/-- STEP with the baud enable. -/
theorem Linked.clk_tick (h : Linked lcr P D l s) (hi : s.LoopLegal i lcr dl) (hbc : lcr.bc = false)
    (he : s.enable = true) :
    Linked lcr (P ++ i.new) (D ++ s.out i) (l.next s i) (s.clk i) := by
  have hent := h.entering_next hi hbc he
  have hnext : (l.next s i).phase = l.phase.next lcr (s.tx.fifo.ptrs.count != 0) := by
    simp [Link.next, he, hi.lcr]
  have hsends := h.sends_next hi
  refine ⟨hsends.place, h.rx_next hi hbc he, ?_, ?_, hsends.queue, (h.received_next hi).1,
    hsends.popping, hsends.pending, ?_⟩
  · intro hp
    rw [hnext, hent.1 hp, Phase.next_push]
    simp [Phase.rstate]
  · intro ha
    rw [hnext] at ha
    have hl := (h.line hi hbc).trans (Phase.line_of_next_armed lcr l.byte ha)
    rw [h.enable_rx hi hbc he]
    simp only [Receiver.counterBNext, Serial.rxIn_srxPadI, hl, if_true]
    exact brcValue_ne_zero _
  · apply h.flow_next hi
    rw [h.ahead_next hi, hent.2, List.map_append, he]
    split <;> simp_all

theorem Linked.clk (h : Linked lcr P D l s) (hi : s.LoopLegal i lcr dl) (hbc : lcr.bc = false) :
    Linked lcr (P ++ i.new) (D ++ s.out i) (l.next s i) (s.clk i) := by
  cases he : s.enable with
  | false => exact h.clk_hold hi hbc he
  | true => exact h.clk_tick hi hbc he

theorem Serial.Idle.linked (h : s.Idle) : Linked lcr [] [] ⟨.idle, 0, [], []⟩ s := by
  have hent : s.rx.entering = [] := by
    rw [Receiver.entering, if_neg]
    simp only [Receiver.rfPushPulse, Bool.and_eq_true, Bool.not_eq_true', not_and,
      Bool.not_eq_false]
    exact h.pushed
  refine ⟨⟨trivial, h.tstate, h.counter, h.line, trivial⟩, ⟨h.rstate, fun hne => absurd rfl hne,
    trivial⟩, fun _ => rfl, ?_, ⟨⟨?_, ?_, by simp⟩, Ring.holds_nil⟩,
    ⟨⟨?_, ?_, by simp⟩, Ring.holds_nil, Ring.holds_nil⟩, ?_, ?_, ?_⟩
  · rintro (hp | hp) <;> cases hp
  · rw [h.txEmpty.1]; rfl
  · rw [h.txEmpty.2]; simp
  · rw [h.rxEmpty.1]; rfl
  · rw [h.rxEmpty.2]; simp
  · intro hp
    rw [h.tfPop] at hp
    cases hp
  · intro hp
    cases hp
  · rw [hent, h.tfPop]
    rfl

end Linked

/-! ### Runs -/

section Run

variable {lcr : Lcr} {dl : BitVec 16} (R : (Serial.loopback lcr dl).Run)

/-- The bytes pushed into the transmit FIFO before cycle `t`. -/
def pushed : ℕ → List (BitVec 8)
  | 0 => []
  | t + 1 => pushed t ++ (R.input t).new

/-- The items popped from the receive FIFO before cycle `t`. -/
def delivered : ℕ → List RecWord
  | 0 => []
  | t + 1 => delivered t ++ (R.state t).out (R.input t)

/-- The link along a run. -/
def link : ℕ → Link
  | 0 => ⟨.idle, 0, [], []⟩
  | t + 1 => (link t).next (R.state t) (R.input t)

/-- RUN. -/
theorem linked (hbc : lcr.bc = false) (t : ℕ) :
    Linked lcr (pushed R t) (delivered R t) (link R t) (R.state t) := by
  induction t with
  | zero => exact R.start.linked
  | succ t ih =>
    rw [show R.state (t + 1) = (R.state t).clk (R.input t) from R.next t]
    exact ih.clk (R.legal t) hbc

/-- The divider never stops. -/
theorem enable_again (hdl : dl ≠ 0) (t : ℕ) : ∃ n, t ≤ n ∧ (R.state n).enable = true :=
  Serial.enable_again R.next (fun u => (R.legal u).dl) (fun u => (R.legal u).startDlc) hdl t

/-- The items that the receiver has pushed before cycle `t`. -/
def arrived (t : ℕ) : List RecWord :=
  delivered R t ++ (link R t).received ++ (R.state t).rx.entering

theorem flow (hbc : lcr.bc = false) (t : ℕ) :
    (pushed R t).map (item lcr) =
      arrived R t ++ ((link R t).ahead lcr (R.state t).tx.tfPop).map (item lcr) :=
  (linked R hbc t).flow

/-- What has arrived is in the FIFO one cycle later. -/
theorem delivered_append_received (hbc : lcr.bc = false) (t : ℕ) :
    delivered R (t + 1) ++ (link R (t + 1)).received = arrived R t := by
  have hrec : (R.state t).out (R.input t) ++ (link R (t + 1)).received =
      (link R t).received ++ (R.state t).rx.entering :=
    ((linked R hbc t).received_next (R.legal t)).2
  rw [delivered, List.append_assoc, hrec, ← List.append_assoc, arrived]

/-- A clock edge adds one item to those that have arrived, or none. -/
theorem arrived_succ (hbc : lcr.bc = false) (t : ℕ) :
    arrived R (t + 1) = arrived R t ++
      if (R.state t).enable = true ∧ (link R t).phase = .stop lcr.pushTick
      then [item lcr (link R t).byte] else [] := by
  have h := linked R hbc t
  have hi := R.legal t
  rw [arrived, delivered_append_received R hbc,
    show R.state (t + 1) = (R.state t).clk (R.input t) from R.next t]
  cases he : (R.state t).enable with
  | true => rw [(h.entering_next hi hbc he).2]; simp
  | false => simp [Serial.clk, Receiver.clk, he, Receiver.entering, Receiver.rfPushPulse]

theorem arrived_mono (hbc : lcr.bc = false) {t u : ℕ} (h : t ≤ u) :
    arrived R t <+: arrived R u := by
  refine Nat.rel_of_forall_rel_succ_of_le (· <+: ·) (fun u => ?_) h
  rw [arrived_succ R hbc]
  exact List.prefix_append _ _

theorem pushed_mono {t u : ℕ} (h : t ≤ u) : pushed R t <+: pushed R u :=
  Nat.rel_of_forall_rel_succ_of_le (· <+: ·) (fun _ => List.prefix_append _ _) h

/-- What has arrived are words of the bytes pushed, in their order. -/
theorem arrived_isPrefix (hbc : lcr.bc = false) (t : ℕ) :
    arrived R t <+: (pushed R t).map (item lcr) := by
  rw [flow R hbc]
  exact List.prefix_append _ _

/-- A byte that has not arrived while the line is idle waits in the FIFO. -/
theorem pending_of_idle (hbc : lcr.bc = false) {t : ℕ} (hidle : (link R t).phase = .idle)
    (h : (arrived R t).length < (pushed R t).length) :
    ((R.state t).tx.fifo.ptrs.count != 0) = true := by
  have hl := linked R hbc t
  have hlen := congrArg List.length (flow R hbc t)
  have hahead : (link R t).ahead lcr (R.state t).tx.tfPop = (link R t).sending := by
    rw [Link.ahead, hl.sends.tfPop_eq_false (by simp [hidle]), hidle]
    rfl
  rw [hahead, List.length_append, List.length_map, List.length_map] at hlen
  have hne : (link R t).sending ≠ [] := by
    intro h0
    rw [h0, List.length_nil] at hlen
    omega
  simpa using fun h0 => hne (hl.sending.1.count_eq_zero.1 h0)

/-- PROGRESS: every byte arrives. -/
theorem arrives (hbc : lcr.bc = false) (hdl : dl ≠ 0) (t : ℕ) :
    ∃ n, t ≤ n ∧ (pushed R t).length ≤ (arrived R n).length := by
  by_cases h0 : (pushed R t).length ≤ (arrived R t).length
  · exact ⟨t, le_refl _, h0⟩
  set N := (pushed R t).length
  have hend : ∃ n, t < n ∧ (t ≤ n ∧ N ≤ (arrived R n).length) := by
    refine fair_phase_ends (P := fun u => t ≤ u ∧ (arrived R u).length < N)
      (fun u => (N - (arrived R u).length) * 500 + (link R u).phase.ticksLeft lcr)
      (enable_again R hdl) ?_ ⟨le_refl _, by omega⟩
    rintro u ⟨htu, hlt⟩
    have hpu : N ≤ (pushed R u).length := (pushed_mono R htu).length_le
    have hsucc := congrArg List.length (arrived_succ R hbc u)
    have hv := (linked R hbc u).tx.valid
    have hbound := Phase.ticksLeft_le lcr (link R (u + 1)).phase
    have hphase : (link R (u + 1)).phase = if (R.state u).enable
        then (link R u).phase.next lcr ((R.state u).tx.fifo.ptrs.count != 0)
        else (link R u).phase := by
      simp only [link, Link.next, (R.legal u).lcr]
    rw [List.length_append] at hsucc
    cases he : (R.state u).enable with
    | false =>
      simp only [he, Bool.false_eq_true, false_and, if_false, List.length_nil, Nat.add_zero]
        at hsucc hphase ⊢
      refine .inr ⟨⟨by omega, by omega⟩, ?_, by simp⟩
      rw [hphase, hsucc]
    | true =>
      by_cases hp : (link R u).phase = .stop lcr.pushTick
      · simp only [he, hp, and_self, if_true, List.length_singleton] at hsucc
        by_cases hN : N ≤ (arrived R (u + 1)).length
        · exact .inl ⟨by omega, hN⟩
        · exact .inr ⟨⟨by omega, by omega⟩, by omega, fun _ => by omega⟩
      · simp only [he, hp, and_false, if_false, List.length_nil, Nat.add_zero] at hsucc
        have hlt' := Phase.ticksLeft_next_lt lcr hv hp
          (fun hidle => pending_of_idle R hbc hidle (by omega))
        rw [he, if_pos rfl] at hphase
        rw [← hphase] at hlt'
        exact .inr ⟨⟨by omega, by omega⟩, by omega, fun _ => by omega⟩
  obtain ⟨n, hn, -, h⟩ := hend
  exact ⟨n, hn.le, h⟩

theorem contents_eq (hbc : lcr.bc = false) (t : ℕ) :
    (R.state t).rx.fifo.contents = (link R t).received :=
  (linked R hbc t).received.contents_eq

/-- Nothing else is delivered. -/
theorem delivered_isPrefix (hbc : lcr.bc = false) (t : ℕ) :
    delivered R t ++ (R.state t).rx.fifo.contents <+: (pushed R t).map (item lcr) := by
  rw [contents_eq R hbc]
  exact (List.prefix_append _ _).trans (arrived_isPrefix R hbc t)

/-- Everything is delivered. -/
theorem prefix_delivered (hbc : lcr.bc = false) (hdl : dl ≠ 0) (t : ℕ) :
    ∃ u, ∀ v, u ≤ v →
      (pushed R t).map (item lcr) <+: delivered R v ++ (R.state v).rx.fifo.contents := by
  obtain ⟨n, hn, hlen⟩ := arrives R hbc hdl t
  refine ⟨n + 1, fun v hv => ?_⟩
  obtain ⟨w, rfl⟩ := Nat.exists_eq_add_of_le' (show 1 ≤ v by omega)
  rw [contents_eq R hbc, delivered_append_received R hbc]
  refine List.prefix_of_prefix_length_le ((pushed_mono R (show t ≤ w by omega)).map _)
    (arrived_isPrefix R hbc w) ?_
  rw [List.length_map]
  exact hlen.trans (arrived_mono R hbc (by omega)).length_le

/-- The bytes pushed into the transmit FIFO come out of the receive FIFO: in the same order, cut to
    the word length, with all error flags zero, none lost and none added. -/
theorem loopback_round_trip (hbc : lcr.bc = false) (hdl : dl ≠ 0) :
    (∀ t, delivered R t ++ (R.state t).rx.fifo.contents <+: (pushed R t).map (item lcr)) ∧
    (∀ t, ∃ u, ∀ v, u ≤ v →
      (pushed R t).map (item lcr) <+: delivered R v ++ (R.state v).rx.fifo.contents) ∧
    (∀ bytes t, (∀ u, t ≤ u → pushed R u = bytes) → ∃ u, ∀ v, u ≤ v →
      delivered R v ++ (R.state v).rx.fifo.contents = bytes.map (item lcr)) := by
  refine ⟨delivered_isPrefix R hbc, prefix_delivered R hbc hdl, ?_⟩
  intro bytes t hfix
  obtain ⟨u, hu⟩ := prefix_delivered R hbc hdl t
  refine ⟨max t u, fun v hv => ?_⟩
  have h1 := delivered_isPrefix R hbc v
  have h2 := hu v (by omega)
  rw [hfix v (by omega)] at h1
  rw [hfix t (le_refl _)] at h2
  exact h1.eq_of_length_le h2.length_le

end Run

/-! ### A host -/

/-- All registers after reset. -/
def Serial.reset : Serial where
  tx := ⟨⟨⟨0, 0, 0⟩, fun _ => 0, false⟩, .idle, 0, 0, 0, true, false, false, false⟩
  rx := ⟨⟨⟨0, 0, 0⟩, fun _ => 0, fun _ => 0, false⟩, .idle, 0, 0, 0, false, false, false, false,
    159, false, false, 0⟩
  dlc := 0
  enable := false

/-- A host that sends two bytes with seven bits, odd parity and two stop bits, and pops whatever
    comes. -/
def Serial.hostIn (s : Serial) (t : ℕ) : SerialIn where
  lcr := 0x0e
  mcr := 0x10
  dl := 2
  startDlc := false
  tfPush := decide (t < 2)
  wbDatI := if t = 0 then 0x55 else 0xa3
  rfPop := s.rx.fifo.ptrs.count != 0
  srxPad := true
  txReset := false
  rxReset := false
  lsrMask := false

def Serial.hosted : ℕ → Serial
  | 0 => Serial.reset
  | t + 1 => (hosted t).clk ((hosted t).hostIn t)

/-- A FIFO that is popped at once never holds two items. -/
theorem Serial.hosted_count (t : ℕ) :
    (hosted t).rx.fifo.ptrs.count = 0 ∨ (hosted t).rx.fifo.ptrs.count = 1 := by
  induction t with
  | zero => exact .inl rfl
  | succ t ih =>
    simp only [hosted, Serial.clk, Receiver.clk, Rfifo.clk, FifoPtrs.clk, Receiver.fifoIn_push,
      Receiver.fifoIn_pop, Receiver.fifoIn_fifoReset, Serial.rxIn_rfPop, Serial.rxIn_rxReset,
      hostIn]
    rcases ih with h | h <;> cases (hosted t).rx.rfPushPulse <;> simp [h]

theorem Serial.hosted_legal (t : ℕ) : (hosted t).LoopLegal ((hosted t).hostIn t) 0x0e 2 := by
  refine ⟨rfl, rfl, by simp [hostIn], rfl, rfl, rfl, fun h => ?_, fun h => ?_, fun _ h => ?_⟩
  · have ht : t < 2 := by simpa [hostIn] using h
    interval_cases t <;> decide
  · simpa [hostIn] using h
  · rcases hosted_count t with h' | h' <;> rw [h] at h' <;> cases h'

theorem Serial.reset_idle : Serial.reset.Idle :=
  ⟨rfl, rfl, rfl, rfl, rfl, fun h => absurd h Bool.false_ne_true, ⟨rfl, rfl⟩, ⟨rfl, rfl⟩⟩

def Serial.hostRun : (Serial.loopback 0x0e 2).Run where
  state := hosted
  input t := (hosted t).hostIn t
  start := reset_idle
  legal := hosted_legal
  next _ := rfl

theorem Serial.hostRun_new {t : ℕ} (ht : 2 ≤ t) : (hostRun.input t).new = [] := by
  have hpush : (hostRun.input t).tfPush = false := decide_eq_false (by omega)
  rw [SerialIn.new, hpush]
  rfl

/-- The second byte loses its highest bit. -/
theorem loopback_round_trip_hosted :
    pushed Serial.hostRun 2 = [0x55, 0xa3] ∧ ∃ u, ∀ v, u ≤ v →
      delivered Serial.hostRun v ++ (Serial.hosted v).rx.fifo.contents =
        [0x55#8 ++ 0#3, 0x23#8 ++ 0#3] := by
  refine ⟨rfl, (loopback_round_trip Serial.hostRun rfl (by decide)).2.2 [0x55, 0xa3] 2 ?_⟩
  intro u hu
  induction u, hu using Nat.le_induction with
  | base => rfl
  | succ u hu ih =>
    rw [pushed, ih, Serial.hostRun_new hu]
    rfl

end DsdOrsoc.Uart
