import DsdOrsoc.Uart.Loopback

/-! The waveform of the transmitter, measured in ticks of the baud enable. `tickAt` is the cycle of
    a tick and `wave` the level that the line has from there to the next one. The places of the
    transmitter at the ticks are numbered (`Phase.pos`), and a tick counts one up:

        pos       0      16     32          F           F + st   F + st + 1
        place   start   bit 0  bit 1  ...  stop  ...     idle ↺      pop   ─▶ 0
        line      _       0      1    ...   ‾             ‾           ‾

    The stop field has two ticks less than the stop bits, and `idle` and `pop` make up for them. -/

namespace DsdOrsoc.Uart
open Schemes

/-! ### Frames -/

/-- The bits of a frame: the start bit, the data bits from the lowest on, and the parity bit over
    the data bits. -/
def frame (lcr : Lcr) (b : BitVec 8) : List Bool :=
  false :: ((List.range lcr.wordLength).map b.getLsbD ++
    if lcr.pe then [parityBit lcr (xorBits (word lcr b))] else [])

/-- The ticks of these bits. -/
def Lcr.frameTicks (lcr : Lcr) : ℕ := 16 * (1 + lcr.wordLength + if lcr.pe then 1 else 0)

/-- The ticks of the stop bits: one, one and a half with five data bits, or two. -/
def Lcr.stopLength (lcr : Lcr) : ℕ := if lcr.sb then (if lcr.bits = 0 then 24 else 32) else 16

theorem Lcr.stopTicks_add_two (lcr : Lcr) : lcr.stopTicks + 2 = lcr.stopLength := by
  unfold stopTicks stopLength
  split_ifs <;> rfl

namespace Phase

variable {lcr : Lcr} {p : Phase}

/-- The number of a place. -/
def pos (lcr : Lcr) : Phase → ℕ
  | start j => j
  | bit i j => 16 * (1 + i) + j
  | parity j => 16 * (1 + lcr.wordLength) + j
  | stop j => lcr.frameTicks + j
  | idle => lcr.frameTicks + lcr.stopTicks
  | pop => lcr.frameTicks + lcr.stopTicks + 1

theorem pos_next (h : p.Valid lcr) (hidle : p ≠ idle) (hpop : p ≠ pop) (pending : Bool) :
    (p.next lcr pending).pos lcr = p.pos lcr + 1 := by
  cases p with
  | idle => exact absurd rfl hidle
  | pop => exact absurd rfl hpop
  | start j =>
    simp only [next]
    split
    · simp only [pos]
      omega
    · rfl
  | bit i j =>
    simp only [Valid] at h
    simp only [next]
    split_ifs with h1 h2 h3
    · simp only [pos]
      omega
    · simp only [pos]
      omega
    · simp only [pos, Lcr.frameTicks, if_neg h3]
      omega
    · simp only [pos]
      omega
  | parity j =>
    simp only [Valid] at h
    simp only [next]
    split <;> simp only [pos, Lcr.frameTicks, h.1, if_true] <;> omega
  | stop j =>
    simp only [next]
    split <;> simp only [pos] <;> omega

/-- A start, data or parity bit lies in the frame. -/
theorem pos_lt_frameTicks (h : p.Valid lcr) (hidle : p ≠ idle) (hpop : p ≠ pop)
    (hstop : ∀ j, p ≠ stop j) : p.pos lcr < lcr.frameTicks := by
  cases p with
  | idle => exact absurd rfl hidle
  | pop => exact absurd rfl hpop
  | stop j => exact absurd rfl (hstop j)
  | start j =>
    simp only [Valid] at h
    simp only [pos, Lcr.frameTicks]
    omega
  | bit i j =>
    simp only [Valid] at h
    simp only [pos, Lcr.frameTicks]
    omega
  | parity j =>
    simp only [Valid] at h
    simp only [pos, Lcr.frameTicks, h.1, if_true]
    omega

/-- The places of a frame and its stop field come before the others. -/
theorem pos_lt_iff (h : p.Valid lcr) :
    p.pos lcr < lcr.frameTicks + lcr.stopTicks ↔ p ≠ idle ∧ p ≠ pop := by
  constructor
  · intro hlt
    constructor <;> rintro rfl <;> simp only [pos] at hlt <;> omega
  · rintro ⟨hidle, hpop⟩
    by_cases hstop : ∃ j, p = stop j
    · obtain ⟨j, rfl⟩ := hstop
      exact Nat.add_lt_add_left h _
    · exact (pos_lt_frameTicks h hidle hpop (not_exists.1 hstop)).trans_le (Nat.le_add_right _ _)

theorem pos_lt (h : p.Valid lcr) (hpop : p ≠ pop) :
    p.pos lcr < lcr.frameTicks + lcr.stopTicks + 1 := by
  by_cases hidle : p = idle
  · rw [hidle, pos]
    omega
  · have := (pos_lt_iff h).2 ⟨hidle, hpop⟩
    omega

/-- A place in the frame puts its bit on the line. -/
theorem frame_pos (h : p.Valid lcr) (hlt : p.pos lcr < lcr.frameTicks) (b : BitVec 8) :
    (frame lcr b)[p.pos lcr / 16]? = some (p.level lcr b) := by
  cases p with
  | idle => simp [pos] at hlt
  | pop => simp only [pos] at hlt; omega
  | stop j => simp [pos] at hlt
  | start j =>
    simp only [Valid] at h
    rw [pos, Nat.div_eq_of_lt h]
    rfl
  | bit i j =>
    simp only [Valid] at h
    rw [pos, show (16 * (1 + i) + j) / 16 = i + 1 by omega, frame, List.getElem?_cons_succ,
      List.getElem?_append_left (by simpa using h.1), List.getElem?_map, List.getElem?_range h.1]
    rfl
  | parity j =>
    simp only [Valid] at h
    rw [pos, show (16 * (1 + lcr.wordLength) + j) / 16 = lcr.wordLength + 1 by omega, frame,
      List.getElem?_cons_succ, List.getElem?_append_right (by simp), h.1]
    simp [level]

/-- The other places leave it high. -/
theorem level_of_le (h : p.Valid lcr) (hle : lcr.frameTicks ≤ p.pos lcr) (b : BitVec 8) :
    p.level lcr b = true := by
  cases p with
  | idle | pop | stop j => rfl
  | start j | bit i j | parity j =>
    exact absurd (pos_lt_frameTicks h (by simp) (by simp) (by simp)) (Nat.not_lt.2 hle)

end Phase

/-- A level for each tick is a waveform of a sequence of bytes: each byte has its frame, the line is
    high everywhere else, and between two frames for the length of the stop bits at least; for that
    length exactly if the next byte is queued two ticks before its end. -/
structure IsWaveform (lcr : Lcr) (byte : ℕ → BitVec 8 → Prop) (queued : ℕ → ℕ → Prop)
    (wave : ℕ → Bool) (start : ℕ → ℕ) : Prop where
  frames : ∀ k b, byte k b → ∀ j < lcr.frameTicks,
    (frame lcr b)[j / 16]? = some (wave (start k + j))
  high : ∀ n, wave n = true ∨ ∃ k b, byte k b ∧ start k ≤ n ∧ n < start k + lcr.frameTicks
  stop : ∀ k b, byte (k + 1) b → start k + lcr.frameTicks + lcr.stopLength ≤ start (k + 1)
  tight : ∀ k b, byte (k + 1) b →
    (start (k + 1) = start k + lcr.frameTicks + lcr.stopLength ↔
      queued (k + 1) (start k + lcr.frameTicks + lcr.stopLength - 2))

/-! ### Tick by tick -/

/-- The transmitter at the ticks: its place, its byte and the bytes loaded so far, if `pending` says
    at which ticks its FIFO is not empty. -/
structure TickRun (lcr : Lcr) (pending : ℕ → Bool) where
  phase : ℕ → Phase
  byte : ℕ → BitVec 8
  loaded : ℕ → List (BitVec 8)
  phase_zero : phase 0 = .idle
  loaded_zero : loaded 0 = []
  phase_succ : ∀ n, phase (n + 1) = (phase n).next lcr (pending n)
  byte_succ : ∀ n, phase n ≠ .pop → byte (n + 1) = byte n
  loaded_succ : ∀ n, loaded (n + 1) = loaded n ++ if phase n = .pop then [byte (n + 1)] else []

namespace TickRun

variable {lcr : Lcr} {pending : ℕ → Bool} (T : TickRun lcr pending)

theorem valid (n : ℕ) : (T.phase n).Valid lcr := by
  induction n with
  | zero =>
    rw [T.phase_zero]
    trivial
  | succ n ih =>
    rw [T.phase_succ]
    exact ih.next lcr _

variable {m n : ℕ}

/-- A frame runs to its end with its byte, and nothing else is loaded. -/
theorem after_pop (h : T.phase n = .pop) {j : ℕ} (hj : j ≤ lcr.frameTicks + lcr.stopTicks) :
    (T.phase (n + 1 + j)).pos lcr = j ∧ T.byte (n + 1 + j) = T.byte (n + 1) ∧
      T.loaded (n + 1 + j) = T.loaded (n + 1) := by
  induction j with
  | zero =>
    rw [Nat.add_zero, T.phase_succ, h]
    exact ⟨rfl, rfl, rfl⟩
  | succ j ih =>
    obtain ⟨hpos, hbyte, hload⟩ := ih (by omega)
    obtain ⟨hidle, hpop⟩ := (Phase.pos_lt_iff (T.valid (n + 1 + j))).1 (by omega)
    rw [← Nat.add_assoc, T.phase_succ, T.byte_succ _ hpop, T.loaded_succ, if_neg hpop,
      List.append_nil, Phase.pos_next (T.valid (n + 1 + j)) hidle hpop, hpos]
    exact ⟨rfl, hbyte, hload⟩

/-- At its end the transmitter is idle for one tick at least. -/
theorem idle_after (h : T.phase n = .pop) :
    T.phase (n + 1 + (lcr.frameTicks + lcr.stopTicks)) = .idle := by
  have hpos := (T.after_pop h le_rfl).1
  have hv := T.valid (n + 1 + (lcr.frameTicks + lcr.stopTicks))
  have hlt := Phase.pos_lt_iff hv
  by_contra hidle
  by_cases hpop : T.phase (n + 1 + (lcr.frameTicks + lcr.stopTicks)) = .pop
  · rw [hpop, Phase.pos] at hpos
    omega
  · have := hlt.2 ⟨hidle, hpop⟩
    omega

/-- Two pops are a frame and its stop bits apart. -/
theorem pop_gap (hm : T.phase m = .pop) (hn : T.phase n = .pop) (hlt : m < n) :
    m + lcr.frameTicks + lcr.stopLength ≤ n := by
  have hstop := lcr.stopTicks_add_two
  by_contra hgap
  obtain ⟨j, rfl⟩ := Nat.exists_eq_add_of_le (show m + 1 ≤ n by omega)
  have hpos := (T.after_pop hm (j := j) (by omega)).1
  rw [hn, Phase.pos] at hpos
  omega

/-- Every place in a frame or its stop field comes after a pop. -/
theorem exists_pop : ∀ {n}, T.phase n ≠ .idle → T.phase n ≠ .pop →
    ∃ m, T.phase m = .pop ∧ n = m + 1 + (T.phase n).pos lcr
  | 0, hidle, _ => absurd T.phase_zero hidle
  | n + 1, hidle, hpop => by
    by_cases hp : T.phase n = .pop
    · refine ⟨n, hp, ?_⟩
      rw [T.phase_succ, hp]
      rfl
    · have hi : T.phase n ≠ .idle := by
        intro hi
        rw [T.phase_succ, hi, Phase.next] at hidle hpop
        split at hidle <;> simp_all
      obtain ⟨m, hm, hn⟩ := exists_pop hi hp
      refine ⟨m, hm, ?_⟩
      rw [T.phase_succ, Phase.pos_next (T.valid n) hi hp]
      omega

/-- The first tick of the frame of the `k`-th byte. -/
noncomputable def start (k : ℕ) : ℕ := Nat.nth (fun n => T.phase n = .pop) k + 1

theorem length_loaded (n : ℕ) :
    (T.loaded n).length = Nat.count (fun n => T.phase n = .pop) n := by
  induction n with
  | zero =>
    rw [T.loaded_zero]
    rfl
  | succ n ih =>
    rw [T.loaded_succ, List.length_append, ih, Nat.count_succ]
    split <;> rfl

theorem start_eq (h : T.phase n = .pop) : T.start (T.loaded n).length = n + 1 := by
  rw [start, T.length_loaded, Nat.nth_count (p := fun n => T.phase n = .pop) h]

/-- The ticks until the `k`-th byte is loaded, if there is always one to send. -/
def toLoad (k n : ℕ) : ℕ :=
  (k + 1 - (T.loaded n).length) * (lcr.frameTicks + lcr.stopTicks + 3) +
    (lcr.frameTicks + lcr.stopTicks + 2 - (T.phase n).pos lcr)

/-- PROGRESS: if there is a byte to send, the `k`-th byte is loaded. -/
theorem exists_load {k N : ℕ} (hpend : ∀ n, N ≤ n → (T.loaded n).length ≤ k →
    T.phase n = .idle → pending n = true) :
    ∃ n, T.phase n = .pop ∧ (T.loaded n).length = k := by
  have hlen : ∀ n, (T.loaded (n + 1)).length =
      (T.loaded n).length + if T.phase n = .pop then 1 else 0 := by
    intro n
    rw [T.loaded_succ, List.length_append]
    split <;> rfl
  have hstep : ∀ n, N ≤ n ∧ (T.loaded n).length ≤ k → k < (T.loaded (n + 1)).length ∨
      ((N ≤ n + 1 ∧ (T.loaded (n + 1)).length ≤ k) ∧ T.toLoad k (n + 1) < T.toLoad k n) := by
    rintro n ⟨hN, hle⟩
    by_cases hk : k < (T.loaded (n + 1)).length
    · exact .inl hk
    refine .inr ⟨⟨by omega, by omega⟩, ?_⟩
    rw [toLoad, toLoad]
    by_cases hp : T.phase n = .pop
    · -- one byte less to load, and a new frame
      rw [hlen, if_pos hp, T.phase_succ, hp, show k + 1 - (T.loaded n).length =
        k + 1 - ((T.loaded n).length + 1) + 1 by omega, Nat.succ_mul]
      simp only [Phase.next, Phase.pos]
      omega
    · have hpos : (T.phase (n + 1)).pos lcr = (T.phase n).pos lcr + 1 := by
        rw [T.phase_succ]
        by_cases hi : T.phase n = .idle
        · rw [hi, hpend n hN hle hi]
          rfl
        · exact Phase.pos_next (T.valid n) hi hp _
      have hlt := Phase.pos_lt (T.valid n) hp
      rw [hlen, if_neg hp, Nat.add_zero (T.loaded n).length, hpos]
      omega
  have hmore : ∃ n, k < (T.loaded n).length := by
    by_cases h0 : k < (T.loaded N).length
    · exact ⟨N, h0⟩
    obtain ⟨n, -, hn, -⟩ := phase_ends (P := fun n => N ≤ n ∧ (T.loaded n).length ≤ k)
      (Q := fun n => k < (T.loaded n).length) (T.toLoad k) hstep (t := N) ⟨le_rfl, by omega⟩
    exact ⟨n, hn⟩
  classical
  obtain ⟨n, hn, hmin⟩ : ∃ n, k < (T.loaded n).length ∧ ∀ m < n, ¬ k < (T.loaded m).length :=
    ⟨Nat.find hmore, Nat.find_spec hmore, fun m hm => Nat.find_min hmore hm⟩
  cases n with
  | zero =>
    rw [T.loaded_zero] at hn
    cases hn
  | succ n =>
    have hle := hmin n (by omega)
    rw [hlen] at hn
    split at hn
    · next hp => exact ⟨n, hp, by omega⟩
    · omega

theorem lt_of_length_lt (h : (T.loaded m).length < (T.loaded n).length) : m < n := by
  rw [T.length_loaded, T.length_loaded] at h
  by_contra hle
  have := Nat.count_monotone (fun n => T.phase n = .pop) (show n ≤ m by omega)
  omega

theorem length_succ_of_pop (h : T.phase n = .pop) :
    (T.loaded (n + 1)).length = (T.loaded n).length + 1 := by
  rw [T.loaded_succ, if_pos h, List.length_append, List.length_singleton]

/-- The next frame follows at once if there is a byte in the tick of the idle state. -/
theorem pop_next_iff (hm : T.phase m = .pop) (hn : T.phase n = .pop)
    (hk : (T.loaded n).length = (T.loaded m).length + 1) :
    n = m + lcr.frameTicks + lcr.stopLength ↔
      pending (m + 1 + (lcr.frameTicks + lcr.stopTicks)) = true := by
  have hstop := lcr.stopTicks_add_two
  have hidle := T.idle_after hm
  have hnext := T.phase_succ (m + 1 + (lcr.frameTicks + lcr.stopTicks))
  rw [hidle] at hnext
  constructor
  · rintro rfl
    rw [show m + lcr.frameTicks + lcr.stopLength =
      m + 1 + (lcr.frameTicks + lcr.stopTicks) + 1 by omega, hnext] at hn
    by_contra hp
    rw [Phase.next, if_neg hp] at hn
    cases hn
  · intro hp
    rw [hp] at hnext
    -- both ticks load the same byte
    have hlen : (T.loaded (m + 1 + (lcr.frameTicks + lcr.stopTicks) + 1)).length =
        (T.loaded n).length := by
      rw [T.loaded_succ, hidle, if_neg (by simp), List.append_nil, (T.after_pop hm le_rfl).2.2,
        T.length_succ_of_pop hm, hk]
    have hstart := T.start_eq hnext
    rw [hlen, T.start_eq hn] at hstart
    omega

end TickRun

/-! ### Runs -/

namespace Serial

/-- The transmitter is idle and its FIFO is empty. -/
structure TxIdle (s : Serial) : Prop where
  tstate : s.tx.tstate = .idle
  counter : s.tx.counter = 0
  line : s.tx.stxOTmp = true
  tfPop : s.tx.tfPop = false
  empty : s.tx.fifo.ptrs.count = 0 ∧ s.tx.fifo.ptrs.top = s.tx.fifo.ptrs.bottom

/-- A fixed format and divisor, no reset of the transmitter, and pushes while its FIFO is not full.
    The receiver may do anything. -/
structure SendLegal (s : Serial) (i : SerialIn) (lcr : Lcr) (dl : BitVec 16) : Prop where
  lcr : i.lcr = lcr
  dl : i.dl = dl
  startDlc : i.startDlc = false
  txReset : i.txReset = false
  push : i.tfPush = true → s.tx.fifo.ptrs.count ≠ 16

def transmitting (lcr : Lcr) (dl : BitVec 16) : Machine Serial SerialIn where
  start := TxIdle
  legal s i := s.SendLegal i lcr dl
  step := clk

end Serial

section Run

variable {lcr : Lcr} {dl : BitVec 16} (R : (Serial.transmitting lcr dl).Run)

/-- The bytes pushed before cycle `t`. -/
def written : ℕ → List (BitVec 8)
  | 0 => []
  | t + 1 => written t ++ (R.input t).new

/-- The transmitter along the run. -/
def sendingAt : ℕ → Sending
  | 0 => ⟨.idle, 0, []⟩
  | t + 1 => (sendingAt t).next (R.state t).tx ((R.state t).txIn (R.input t))

/-- The bytes loaded before cycle `t`. -/
def loaded : ℕ → List (BitVec 8)
  | 0 => []
  | t + 1 => loaded t ++
    if (R.state t).enable = true ∧ (sendingAt R t).phase = .pop then [(sendingAt R (t + 1)).byte]
    else []

/-- The level of the line. -/
def lineAt (t : ℕ) : Bool := (R.state t).serialOut (R.input t)

/-- The cycle of the `n`-th tick. -/
noncomputable def tickAt (n : ℕ) : ℕ := Nat.nth (fun t => (R.state t).enable = true) n

/-- The level of the line after the `n`-th tick. -/
noncomputable def wave (n : ℕ) : Bool := lineAt R (tickAt R n + 1)

theorem feeds_run (t : ℕ) : (R.state t).tx.Feeds ((R.state t).txIn (R.input t)) lcr :=
  ⟨(R.legal t).lcr, (R.legal t).txReset, (R.legal t).push⟩

/-- RUN. -/
theorem sends_run (t : ℕ) : Sends lcr (sendingAt R t) (R.state t).tx := by
  induction t with
  | zero =>
    have h := R.start
    refine ⟨⟨trivial, h.tstate, h.counter, h.line, trivial⟩, ⟨⟨?_, ?_, by simp [sendingAt]⟩,
      Ring.holds_nil⟩, ?_, ?_⟩
    · rw [h.empty.1]
      rfl
    · rw [h.empty.2]
      simp [sendingAt]
    · intro hp
      rw [h.tfPop] at hp
      cases hp
    · intro hp
      cases hp
  | succ t ih =>
    rw [show R.state (t + 1) = (R.state t).clk (R.input t) from R.next t]
    exact ih.clk (feeds_run R t)

/-- RUN: the bytes pushed are those loaded and those that wait. -/
theorem written_eq (t : ℕ) :
    written R t = loaded R t ++ (sendingAt R t).waiting (R.state t).tx.tfPop := by
  induction t with
  | zero =>
    rw [Sending.waiting, R.start.tfPop]
    rfl
  | succ t ih =>
    have hwait := (sends_run R t).waiting_next (feeds_run R t)
    rw [written, ih, loaded, List.append_assoc, List.append_assoc]
    rw [show R.state (t + 1) = (R.state t).clk (R.input t) from R.next t]
    exact congrArg _ hwait

theorem written_mono {t u : ℕ} (h : t ≤ u) : written R t <+: written R u :=
  Nat.rel_of_forall_rel_succ_of_le (· <+: ·) (fun _ => List.prefix_append _ _) h

theorem lineAt_eq (hbc : lcr.bc = false) (t : ℕ) :
    lineAt R t = (sendingAt R t).phase.line lcr (sendingAt R t).byte := by
  rw [lineAt, Serial.serialOut, (R.legal t).lcr, Transmitter.stxPadO, hbc]
  exact (sends_run R t).place.line

/-- Between the ticks the transmitter holds. -/
theorem hold {t : ℕ} (h : ¬ (R.state t).enable = true) :
    (sendingAt R (t + 1)).phase = (sendingAt R t).phase ∧
      (sendingAt R (t + 1)).byte = (sendingAt R t).byte ∧ loaded R (t + 1) = loaded R t := by
  simp [sendingAt, loaded, Sending.next, h]

variable (hdl : dl ≠ 0)
include hdl

theorem enable_infinite : (Set.ofPred fun t => (R.state t).enable = true).Infinite :=
  infinite_of_fair (Serial.enable_again R.next (fun t => (R.legal t).dl)
    (fun t => (R.legal t).startDlc) hdl)

theorem enable_tickAt (n : ℕ) : (R.state (tickAt R n)).enable = true :=
  Nat.nth_mem_of_infinite (enable_infinite R hdl) n

theorem tickAt_strictMono : StrictMono (tickAt R) := Nat.nth_strictMono (enable_infinite R hdl)

/-- What the next tick finds is what the last one left. -/
theorem at_tick_succ (n : ℕ) :
    (sendingAt R (tickAt R (n + 1))).phase = (sendingAt R (tickAt R n + 1)).phase ∧
      (sendingAt R (tickAt R (n + 1))).byte = (sendingAt R (tickAt R n + 1)).byte ∧
      loaded R (tickAt R (n + 1)) = loaded R (tickAt R n + 1) := by
  have hlt := tickAt_strictMono R hdl (Nat.lt_succ_self n)
  exact ⟨hold_between (g := fun t => (sendingAt R t).phase) (fun t h => (hold R h).1) hlt le_rfl,
    hold_between (g := fun t => (sendingAt R t).byte) (fun t h => (hold R h).2.1) hlt le_rfl,
    hold_between (g := loaded R) (fun t h => (hold R h).2.2) hlt le_rfl⟩

/-- The FIFO is not empty at the `n`-th tick. -/
noncomputable def pendingAt (n : ℕ) : Bool := (R.state (tickAt R n)).tx.fifo.ptrs.count != 0

/-- The run tick by tick. -/
noncomputable def tickRun : TickRun lcr (pendingAt R) where
  phase n := (sendingAt R (tickAt R n)).phase
  byte n := (sendingAt R (tickAt R n)).byte
  loaded n := loaded R (tickAt R n)
  phase_zero := hold_before (g := fun t => (sendingAt R t).phase) (fun t h => (hold R h).1) le_rfl
  loaded_zero := hold_before (g := loaded R) (fun t h => (hold R h).2.2) le_rfl
  phase_succ n := by
    rw [(at_tick_succ R hdl n).1]
    simp [sendingAt, Sending.next, enable_tickAt R hdl n, (R.legal (tickAt R n)).lcr, pendingAt]
  byte_succ n hp := by
    rw [(at_tick_succ R hdl n).2.1]
    exact Sending.next_byte hp
  loaded_succ n := by
    rw [(at_tick_succ R hdl n).2.2, (at_tick_succ R hdl n).2.1, loaded]
    simp [enable_tickAt R hdl n]

omit hdl in
/-- The `k`-th byte that is pushed. -/
def ByteNo (k : ℕ) (b : BitVec 8) : Prop := ∃ t, (written R t)[k]? = some b

omit hdl in
/-- The `k`-th byte is pushed before the `n`-th tick. -/
def Queued (k n : ℕ) : Prop := k < (written R (tickAt R n)).length

omit hdl in
theorem ByteNo.unique {k : ℕ} {b c : BitVec 8} (hb : ByteNo R k b) (hc : ByteNo R k c) : b = c := by
  have hmono : ∀ {t u : ℕ} {b : BitVec 8}, t ≤ u → (written R t)[k]? = some b →
      (written R u)[k]? = some b := by
    intro t u b htu hb
    obtain ⟨r, hr⟩ := written_mono R htu
    rw [← hr, List.getElem?_append_left (List.getElem?_eq_some_iff.1 hb).1]
    exact hb
  obtain ⟨t, hb⟩ := hb
  obtain ⟨u, hc⟩ := hc
  have hb' := hmono (le_max_left t u) hb
  rw [hmono (le_max_right t u) hc] at hb'
  exact (Option.some.inj hb').symm

/-- A byte that is loaded has been pushed. -/
theorem byteNo_of_pop {n : ℕ} (h : (tickRun R hdl).phase n = .pop) :
    ByteNo R ((tickRun R hdl).loaded n).length ((tickRun R hdl).byte (n + 1)) := by
  have hload : loaded R (tickAt R (n + 1)) =
      (tickRun R hdl).loaded n ++ [(tickRun R hdl).byte (n + 1)] := by
    have hsucc := (tickRun R hdl).loaded_succ n
    rw [if_pos h] at hsucc
    exact hsucc
  refine ⟨tickAt R (n + 1), ?_⟩
  rw [written_eq, hload, List.getElem?_append_left (by simp), List.getElem?_concat_length]

/-- While the transmitter is idle its FIFO holds what is not loaded. -/
theorem pendingAt_iff {n : ℕ} (h : (tickRun R hdl).phase n = .idle) :
    pendingAt R n = true ↔ Queued R ((tickRun R hdl).loaded n).length n := by
  have hsends := sends_run R (tickAt R n)
  have hidle : (sendingAt R (tickAt R n)).phase = .idle := h
  have hno := hsends.tfPop_eq_false (by simp [hidle])
  have hlen : (written R (tickAt R n)).length =
      ((tickRun R hdl).loaded n).length + (sendingAt R (tickAt R n)).queue.length := by
    rw [written_eq, hno, List.length_append]
    rfl
  rw [pendingAt, bne_iff_ne, ne_eq, hsends.queue.1.count_eq_zero, ← List.length_eq_zero_iff, Queued,
    hlen]
  omega

/-- PROGRESS: every byte that is pushed is loaded. -/
theorem exists_pop_of_byteNo {k : ℕ} {b : BitVec 8} (h : ByteNo R k b) :
    ∃ n, (tickRun R hdl).phase n = .pop ∧ ((tickRun R hdl).loaded n).length = k ∧
      (tickRun R hdl).byte (n + 1) = b := by
  obtain ⟨t, ht⟩ := h
  have hk := (List.getElem?_eq_some_iff.1 ht).1
  have hpend : ∀ n, t ≤ n → ((tickRun R hdl).loaded n).length ≤ k →
      (tickRun R hdl).phase n = .idle → pendingAt R n = true := by
    intro n hn hle hidle
    have htick : t ≤ tickAt R n := hn.trans (tickAt_strictMono R hdl).le_apply
    have hlate := (written_mono R htick).length_le
    exact (pendingAt_iff R hdl hidle).2 (by rw [Queued]; omega)
  obtain ⟨n, hn, rfl⟩ := (tickRun R hdl).exists_load hpend
  exact ⟨n, hn, rfl, (byteNo_of_pop R hdl hn).unique R ⟨t, ht⟩⟩

theorem wave_eq (hbc : lcr.bc = false) (n : ℕ) :
    wave R n = ((tickRun R hdl).phase n).level lcr ((tickRun R hdl).byte n) := by
  have hline : wave R n =
      ((tickRun R hdl).phase (n + 1)).line lcr ((tickRun R hdl).byte (n + 1)) := by
    obtain ⟨hphase, hbyte, -⟩ := at_tick_succ R hdl n
    rw [wave, lineAt_eq R hbc, ← hphase, ← hbyte]
    rfl
  rw [hline, (tickRun R hdl).phase_succ]
  by_cases hp : (tickRun R hdl).phase n = .pop
  · rw [hp]
    rfl
  · rw [(tickRun R hdl).byte_succ n hp]
    exact Phase.line_next lcr _ ((tickRun R hdl).valid n) _

/-- The frames of two bytes in a row. -/
theorem exists_pops {k : ℕ} {b : BitVec 8} (h : ByteNo R (k + 1) b) :
    ∃ m n, (tickRun R hdl).phase m = .pop ∧ ((tickRun R hdl).loaded m).length = k ∧
      (tickRun R hdl).phase n = .pop ∧ ((tickRun R hdl).loaded n).length = k + 1 := by
  obtain ⟨n, hn, hkn, -⟩ := exists_pop_of_byteNo R hdl h
  obtain ⟨t, ht⟩ := h
  have hk : k < (written R t).length := by
    have := (List.getElem?_eq_some_iff.1 ht).1
    omega
  have hprev : ByteNo R k (written R t)[k] := ⟨t, List.getElem?_eq_getElem hk⟩
  obtain ⟨m, hm, hkm, -⟩ := exists_pop_of_byteNo R hdl hprev
  exact ⟨m, n, hm, hkm, hn, hkn⟩

theorem isWaveform (hbc : lcr.bc = false) :
    IsWaveform lcr (ByteNo R) (Queued R) (wave R) (tickRun R hdl).start := by
  have hstop := lcr.stopTicks_add_two
  refine ⟨?_, ?_, ?_, ?_⟩
  · intro k b hb j hj
    obtain ⟨n, hn, rfl, rfl⟩ := exists_pop_of_byteNo R hdl hb
    obtain ⟨hpos, hbyte, -⟩ := (tickRun R hdl).after_pop hn (j := j) (by omega)
    have hframe := Phase.frame_pos ((tickRun R hdl).valid (n + 1 + j)) (by omega)
      ((tickRun R hdl).byte (n + 1))
    rw [(tickRun R hdl).start_eq hn, wave_eq R hdl hbc, hbyte, ← hframe, hpos]
  · intro n
    by_cases hle : lcr.frameTicks ≤ ((tickRun R hdl).phase n).pos lcr
    · left
      rw [wave_eq R hdl hbc]
      exact Phase.level_of_le ((tickRun R hdl).valid n) hle _
    · right
      obtain ⟨hidle, hpop⟩ := (Phase.pos_lt_iff ((tickRun R hdl).valid n)).1 (by omega)
      obtain ⟨m, hm, hn⟩ := (tickRun R hdl).exists_pop hidle hpop
      refine ⟨_, _, byteNo_of_pop R hdl hm, ?_, ?_⟩ <;> rw [(tickRun R hdl).start_eq hm] <;> omega
  · intro k b hb
    obtain ⟨m, n, hm, hkm, hn, hkn⟩ := exists_pops R hdl hb
    have hgap := (tickRun R hdl).pop_gap hm hn ((tickRun R hdl).lt_of_length_lt (by omega))
    rw [← hkn, (tickRun R hdl).start_eq hn, ← hkm, (tickRun R hdl).start_eq hm]
    omega
  · intro k b hb
    obtain ⟨m, n, hm, hkm, hn, hkn⟩ := exists_pops R hdl hb
    have hnext := (tickRun R hdl).pop_next_iff hm hn (by omega)
    rw [pendingAt_iff R hdl ((tickRun R hdl).idle_after hm),
      ((tickRun R hdl).after_pop hm le_rfl).2.2, (tickRun R hdl).length_succ_of_pop hm, hkm]
      at hnext
    rw [← hkn, (tickRun R hdl).start_eq hn, hkn, ← hkm, (tickRun R hdl).start_eq hm, hkm,
      show m + 1 + lcr.frameTicks + lcr.stopLength - 2 =
        m + 1 + (lcr.frameTicks + lcr.stopTicks) by omega, ← hnext]
    omega

/-- The line is idle high until the first tick and holds its level between the ticks; tick by tick
    it is the waveform of the bytes pushed. -/
theorem transmitter_waveform (hbc : lcr.bc = false) :
    StrictMono (tickAt R) ∧ (∀ t ≤ tickAt R 0, lineAt R t = true) ∧
      (∀ n t, tickAt R n < t → t ≤ tickAt R (n + 1) → lineAt R t = wave R n) ∧
      ∃ start, IsWaveform lcr (ByteNo R) (Queued R) (wave R) start := by
  have hhold : ∀ t, ¬ (R.state t).enable = true → lineAt R (t + 1) = lineAt R t := by
    intro t ht
    obtain ⟨hphase, hbyte, -⟩ := hold R ht
    rw [lineAt_eq R hbc, lineAt_eq R hbc, hphase, hbyte]
  refine ⟨tickAt_strictMono R hdl, ?_, ?_, _, isWaveform R hdl hbc⟩
  · intro t ht
    rw [hold_before hhold ht, lineAt_eq R hbc]
    rfl
  · intro n t hlt hle
    exact hold_between hhold hlt hle

end Run

theorem Serial.reset_txIdle : Serial.reset.TxIdle := ⟨rfl, rfl, rfl, rfl, rfl, rfl⟩

theorem Serial.hosted_sendLegal (t : ℕ) : (hosted t).SendLegal ((hosted t).hostIn t) 0x0e 2 :=
  ⟨rfl, rfl, rfl, rfl, (hosted_legal t).push⟩

/-- The run that sends two bytes. -/
def Serial.sendRun : (Serial.transmitting 0x0e 2).Run where
  state := hosted
  input t := (hosted t).hostIn t
  start := reset_txIdle
  legal := hosted_sendLegal
  next := Serial.hostRun.next

/-- The line carries 0x55 with its parity bit and then 0x23, behind the two stop bits of the
    first. -/
theorem transmitter_waveform_hosted :
    ByteNo Serial.sendRun 0 0x55 ∧ ByteNo Serial.sendRun 1 0xa3 ∧
    StrictMono (tickAt Serial.sendRun) ∧ ∃ start : ℕ → ℕ,
      (∀ j < 144, [false, true, false, true, false, true, false, true, true][j / 16]? =
        some (wave Serial.sendRun (start 0 + j))) ∧
      (∀ j < 144, [false, true, true, false, false, false, true, false, false][j / 16]? =
        some (wave Serial.sendRun (start 1 + j))) ∧
      start 1 = start 0 + 144 + 32 ∧
      ∀ n, wave Serial.sendRun n = true ∨ ∃ k b, ByteNo Serial.sendRun k b ∧
        start k ≤ n ∧ n < start k + 144 := by
  have h0 : ByteNo Serial.sendRun 0 0x55 := ⟨2, rfl⟩
  have h1 : ByteNo Serial.sendRun 1 0xa3 := ⟨2, rfl⟩
  obtain ⟨hmono, -, -, start, h⟩ := transmitter_waveform Serial.sendRun (by decide) rfl
  -- both bytes are pushed before the second tick
  have hqueued : Queued Serial.sendRun 1 (start 0 + 144 + 32 - 2) := by
    have htick : 2 ≤ tickAt Serial.sendRun (start 0 + 144 + 32 - 2) :=
      le_trans (by omega) hmono.le_apply
    exact (written_mono Serial.sendRun htick).length_le
  exact ⟨h0, h1, hmono, start, h.frames 0 _ h0, h.frames 1 _ h1, (h.tight 0 _ h1).2 hqueued, h.high⟩

end DsdOrsoc.Uart
