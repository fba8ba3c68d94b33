import DsdOrsoc.FlashIf.Access
import DsdOrsoc.FlashIf.Pins

/-! The delays of the flash bridge in nanoseconds. Both counts are quotients that are rounded down,
    and the two paths spend different numbers of clocks on them (`W` and `N` are the counts):

        write   strobe low in   W      clocks
        read    pins steady for N + 1  clocks, the last one in the state that takes the data

    The clock more makes up for the remainder of the read delay; nothing makes up for that of the
    write delay. -/

namespace DsdOrsoc.FlashIf
open Schemes

/-- `WRITE_DELAY_NS`. -/
def writeDelayNs : ℕ := 70

/-- `READ_DELAY_NS`. -/
def readDelayNs : ℕ := 180

/-- `WRITE_DELAY_COUNT` and `READ_DELAY_COUNT` for a clock of the given period. -/
def delays (wclkPeriod : ℕ) : Delays := ⟨writeDelayNs / wclkPeriod, readDelayNs / wclkPeriod⟩

section Run

variable {d : Delays} (R : (Bridge.machine d).Run)

/-- A request is held until it is acknowledged. -/
def Held : Prop :=
  ∀ t, (R.input t).req = true → (R.state t).wbAckO = false →
    (R.input (t + 1)).req = true ∧ (R.input (t + 1)).access = (R.input t).access

/-- `FLASH_SnWR` is low from cycle `a` on and high again in cycle `b`. -/
structure LowPulse (a b : ℕ) : Prop where
  before : ∃ u, u + 1 = a ∧ (R.state u).flashSnWr = true
  low : ∀ u, a ≤ u → u < b → (R.state u).flashSnWr = false
  lt : a < b
  after : (R.state b).flashSnWr = true

/-- The flash is enabled at one address in the last `n` cycles up to cycle `t`. -/
structure Steady (t n : ℕ) : Prop where
  le : n ≤ t + 1
  pins : ∀ v, t < v + n → v ≤ t → (R.state v).flashCeN = false ∧ (R.state v).flashOeN = false ∧
    (R.state v).flashA = (R.state t).flashA

/-- The edge at the end of cycle `t` takes a half-word from `FLASH_D_I`. -/
def Samples (t : ℕ) : Prop := (R.state t).state = .read1 ∨ (R.state t).state = .readNext1

/-- Every write strobe is long enough for a clock of period `P`. -/
def WritesLong (P : ℕ) : Prop := ∀ a b, LowPulse R a b → writeDelayNs ≤ (b - a) * P

/-- Every half-word is taken after the access time. -/
def ReadsLate (P : ℕ) : Prop :=
  ∀ t, Samples R t → ∃ n, Steady R t n ∧ readDelayNs ≤ n * P

variable {R} {t n a b : ℕ}

/-! ### Writes -/

/-- The strobe falls in the strobe states only. -/
theorem strobe_of_low (hhigh : (R.state t).flashSnWr = true)
    (hlow : (R.state (t + 1)).flashSnWr = false) :
    (R.state t).state = .write1 ∨ (R.state t).state = .writeNext0 := by
  rw [← FState.strobes_iff]
  by_contra hs
  rw [Bool.not_eq_true] at hs
  rw [state_succ, Bridge.clk_snWr hs, hhigh] at hlow
  cases hlow

/-- From the beginning of a strobe state the pin is low for the count and then high. -/
theorem strobe_pin (hok : ∀ t, (R.state t).Ok d) (hw : d.write ≤ 30)
    (hx : (R.state t).state = .write1 ∨ (R.state t).state = .writeNext0)
    (h0 : (R.state t).writeDelay = 0) :
    (∀ k, k ≤ d.write → (R.state (t + k)).flashSnWr = decide (k = 0)) ∧
      (R.state (t + d.write + 1)).flashSnWr = true := by
  constructor
  · intro k hk
    obtain ⟨h1, h2, -⟩ := strobe_run hx hw rfl h0 hk
    have hne : (R.state (t + k)).writeDelay = 0#5 ↔ k = 0 := by
      rw [BitVec.toNat_eq, h2]
      rfl
    rw [(hok _).wr, h1]
    simp [hx, hne]
  · obtain ⟨he, hcnt, -⟩ := strobe_run hx hw rfl h0 (le_refl d.write)
    rw [state_succ]
    rcases hx with hx | hx <;>
      simp only [Bridge.clk, he, hx, Bridge.strobe, hcnt, le_refl, if_true]

/-- A pulse has as many clocks as the count says. -/
theorem LowPulse.length (hok : ∀ t, (R.state t).Ok d) (hw : d.write ≤ 30) (h : LowPulse R a b) :
    b = a + d.write := by
  obtain ⟨u, rfl, hhigh⟩ := h.before
  have hx := strobe_of_low hhigh (h.low _ le_rfl h.lt)
  have h0 : (R.state u).writeDelay = 0 := by
    by_contra hne
    rw [(hok u).wr, decide_eq_true_eq] at hhigh
    exact hhigh ⟨hx, hne⟩
  obtain ⟨hpin, hend⟩ := strobe_pin hok hw hx h0
  have hlt := h.lt
  -- the pulse can end neither earlier nor later
  rcases Nat.lt_trichotomy b (u + 1 + d.write) with hearly | heq | hlate
  · have hb := h.after
    obtain ⟨k, rfl⟩ := Nat.exists_eq_add_of_le (show u ≤ b by omega)
    rw [hpin k (by omega), decide_eq_true_eq] at hb
    omega
  · exact heq
  · have hb := h.low (u + d.write + 1) (by omega) (by omega)
    rw [hend] at hb
    cases hb

/-! ### Reads -/

theorem Steady.succ (h : Steady R t n) (hce : (R.state (t + 1)).flashCeN = false)
    (hoe : (R.state (t + 1)).flashOeN = false)
    (hA : (R.state (t + 1)).flashA = (R.state t).flashA) : Steady R (t + 1) (n + 1) := by
  have hle := h.le
  refine ⟨by omega, fun v h1 h2 => ?_⟩
  rcases Nat.lt_or_eq_of_le h2 with hlt | rfl
  · rw [hA]
    exact h.pins v (by omega) (by omega)
  · exact ⟨hce, hoe, rfl⟩

theorem steady_zero (t : ℕ) : Steady R t 0 := ⟨Nat.zero_le _, fun v h1 h2 => by omega⟩

/-- INVARIANT: in the access states the pins are steady for as many clocks as the delay counts, and
    for one more when the data are taken. -/
structure AccessTime (R : (Bridge.machine d).Run) (t : ℕ) : Prop where
  counts : (R.state t).state = .read0 ∨ (R.state t).state = .readNext0 →
    Steady R t (R.state t).readDelay.toNat
  done : Samples R t → Steady R t (d.read + 1)

/-- STEP from an access state. -/
theorem AccessTime.succ_of_access (h : AccessTime R t) (hok : (R.state t).Ok d) (hr : d.read ≤ 30)
    (hs : (R.state t).state = .read0 ∨ (R.state t).state = .readNext0) :
    AccessTime R (t + 1) := by
  have hmax := hok.readMax hs
  have hnext : R.state (t + 1) =
      (R.state t).access d (if (R.state t).state = .read0 then .read1 else .readNext1) := by
    rw [state_succ]
    rcases hs with hs | hs <;> simp [Bridge.clk, hs]
  have hsucc : Steady R (t + 1) ((R.state t).readDelay.toNat + 1) :=
    (h.counts hs).succ (by rw [hnext]; rfl) (by rw [hnext]; rfl) (by rw [hnext]; rfl)
  have hcnt : (R.state (t + 1)).readDelay.toNat = (R.state t).readDelay.toNat + 1 := by
    rw [hnext]
    exact Bridge.toNat_add_one (by omega)
  refine ⟨fun _ => hcnt ▸ hsucc, fun hsam => ?_⟩
  -- the access state is left when the delay has reached the count
  have hge : d.read ≤ (R.state t).readDelay.toNat := by
    by_contra hlt
    have hstay : (R.state (t + 1)).state = (R.state t).state := by
      rw [hnext]
      exact if_neg hlt
    rw [Samples, hstay] at hsam
    rcases hs with hs | hs <;> simp [hs] at hsam
  rwa [Nat.le_antisymm hmax hge] at hsucc

/-- The other states begin an access with the delay at zero. -/
theorem clk_of_other {s : Bridge} {i : BridgeIn} (hok : s.Ok d) (h0 : s.state ≠ .read0)
    (h1 : s.state ≠ .readNext0) :
    ((s.clk d i).state = .read0 ∨ (s.clk d i).state = .readNext0 → (s.clk d i).readDelay = 0) ∧
      (s.clk d i).state ≠ .read1 ∧ (s.clk d i).state ≠ .readNext1 := by
  cases hs : s.state
  case read0 => exact absurd hs h0
  case readNext0 => exact absurd hs h1
  case idle =>
    have hz := hok.no_readDelay (by simp [hs])
    simp only [Bridge.clk, hs, Bridge.launch]
    split_ifs <;> simp [hz, hs]
  case check =>
    have hz := hok.no_readDelay (by simp [hs])
    simp only [Bridge.clk, hs, Bridge.launch]
    split_ifs <;> simp [hz, hs]
  all_goals
    simp only [Bridge.clk, hs, Bridge.strobe]
    repeat' split
    all_goals simp

/-- RUN. -/
theorem accessTime_run (hok : ∀ t, (R.state t).Ok d) (hr : d.read ≤ 30) (t : ℕ) :
    AccessTime R t := by
  induction t with
  | zero =>
    have h0 : (R.state 0).state = .reset := by rw [show R.state 0 = Bridge.init from R.start]; rfl
    constructor
    · rintro (h | h) <;> simp [h0] at h
    · rintro (h | h) <;> simp [h0] at h
  | succ t ih =>
    by_cases hs : (R.state t).state = .read0 ∨ (R.state t).state = .readNext0
    · exact ih.succ_of_access (hok t) hr hs
    · rw [not_or] at hs
      obtain ⟨hz, h1, h2⟩ := clk_of_other (i := R.input t) (hok t) hs.1 hs.2
      rw [← state_succ] at hz h1 h2
      refine ⟨fun h => ?_, fun h => ?_⟩
      · rw [hz h]
        exact steady_zero _
      · exact absurd h (not_or.2 ⟨h1, h2⟩)

end Run

/-! ### Periods -/

section Period

variable {P : ℕ}

/-- Rounded down, a delay is kept exactly if the period divides it. -/
theorem le_div_mul_iff {n : ℕ} : n ≤ n / P * P ↔ P ∣ n := by
  refine ⟨fun h => ?_, fun h => (Nat.div_mul_cancel h).ge⟩
  exact Dvd.intro_left (n / P) ((Nat.div_mul_le_self n P).antisymm h)

/-- One clock more is always enough. -/
theorem le_div_succ_mul {n : ℕ} (hP : 0 < P) : n ≤ (n / P + 1) * P := by
  rw [Nat.add_mul, Nat.one_mul]
  exact (Nat.lt_div_mul_add hP).le

/-- A count that fits in five bits leaves room for one more: no period gives 31. -/
theorem count_le (hP : 0 < P) (h : readDelayNs / P < 2 ^ 5) :
    (delays P).write ≤ 30 ∧ (delays P).read ≤ 30 := by
  rw [Nat.div_lt_iff_lt_mul hP] at h
  have h6 : 6 ≤ P := by
    simp only [readDelayNs] at h
    omega
  constructor
  · exact (Nat.div_le_div_left h6 (by decide)).trans (by decide)
  · exact (Nat.div_le_div_left h6 (by decide)).trans (by decide)

variable {R : (Bridge.machine (delays P)).Run}

theorem LowPulse.length_mul (hok : ∀ t, (R.state t).Ok (delays P)) (hw : (delays P).write ≤ 30)
    {a b : ℕ} (h : LowPulse R a b) : writeDelayNs ≤ (b - a) * P ↔ P ∣ writeDelayNs := by
  rw [h.length hok hw, Nat.add_sub_cancel_left]
  exact le_div_mul_iff

/-- Without a clock for the strobe there is no strobe. -/
theorem pos_of_lowPulse (hok : ∀ t, (R.state t).Ok (delays P)) (hw : (delays P).write ≤ 30)
    {a b : ℕ} (h : LowPulse R a b) : P ≤ writeDelayNs := by
  by_contra hgt
  have hlen := h.length hok hw
  have hz : (delays P).write = 0 := Nat.div_eq_of_lt (by omega)
  have := h.lt
  omega

theorem readsLate (hok : ∀ t, (R.state t).Ok (delays P)) (hr : (delays P).read ≤ 30)
    (hP : 0 < P) : ReadsLate R P := by
  intro t ht
  exact ⟨_, (accessTime_run hok hr t).done ht, le_div_succ_mul hP⟩

/-! ### A write that is requested all the time -/

def writing (_ : ℕ) : BridgeIn where
  cyc := true
  stb := true
  access := ⟨0, 0b1111, true, 0⟩
  flashDI := 0
  flashSts := true

/-- The word is written again and again. -/
def writingRun (d : Delays) : (Bridge.machine d).Run :=
  .ofInput Bridge.init writing rfl fun _ => trivial

theorem writingRun_held (d : Delays) : Held (writingRun d) := fun _ _ _ => ⟨rfl, rfl⟩

theorem writingRun_lowPulse {d : Delays} (h1 : 1 ≤ d.write) (hw : d.write ≤ 30)
    (hr : d.read ≤ 30) : LowPulse (writingRun d) 4 (4 + d.write) := by
  have hok := Bridge.ok_of_run (writingRun d) hw hr
  obtain ⟨hpin, hend⟩ := strobe_pin (R := writingRun d) (t := 3) hok hw (.inl rfl) rfl
  refine ⟨⟨3, rfl, hpin 0 (Nat.zero_le _)⟩, fun u h3 hu => ?_, by omega, ?_⟩
  · obtain ⟨k, rfl⟩ := Nat.exists_eq_add_of_le (show 3 ≤ u by omega)
    rw [hpin k (by omega), decide_eq_false_iff_not]
    omega
  · rwa [show 4 + d.write = 3 + d.write + 1 by omega]

/-- For every clock whose counts fit in the counters (the read count is the larger one), both delays
    are honoured in all runs if and only if the period divides the write delay, or is so long that
    the write strobe never falls. -/
theorem honours_delays_iff (hP : 0 < P) (hr : readDelayNs / P < 2 ^ 5) :
    (∀ R : (Bridge.machine (delays P)).Run, Held R → WritesLong R P ∧ ReadsLate R P) ↔
      P ∣ writeDelayNs ∨ writeDelayNs < P := by
  obtain ⟨hw30, hr30⟩ := count_le hP hr
  constructor
  · intro h
    by_contra hno
    rw [not_or, Nat.not_lt] at hno
    have h1 : 1 ≤ (delays P).write := Nat.div_pos hno.2 hP
    have hpulse := writingRun_lowPulse h1 hw30 hr30
    have hlong := (h _ (writingRun_held _)).1 _ _ hpulse
    exact hno.1 ((hpulse.length_mul (Bridge.ok_of_run _ hw30 hr30) hw30).1 hlong)
  · intro hdvd R _
    have hok := Bridge.ok_of_run R hw30 hr30
    refine ⟨fun a b h => ?_, readsLate hok hr30 hP⟩
    have hle := pos_of_lowPulse hok hw30 h
    exact (h.length_mul hok hw30).2 (hdvd.resolve_right (by omega))

/-- With a clock of 10 ns, strobes of seven clocks. -/
theorem honours_delays_ten :
    (∀ R : (Bridge.machine (delays 10)).Run, Held R → WritesLong R 10 ∧ ReadsLate R 10) ∧
      LowPulse (writingRun (delays 10)) 4 11 :=
  ⟨(honours_delays_iff (by decide) (by decide)).2 (.inl (by decide)),
    writingRun_lowPulse (by decide) (by decide) (by decide)⟩

/-- The clock of the board has 40 ns, and its strobes have one clock. -/
theorem strobe_too_short :
    delays 40 = ⟨1, 4⟩ ∧ Held (writingRun (delays 40)) ∧
      LowPulse (writingRun (delays 40)) 4 5 ∧ (5 - 4) * 40 < writeDelayNs :=
  ⟨rfl, writingRun_held _, writingRun_lowPulse (by decide) (by decide) (by decide), by decide⟩

end Period

end DsdOrsoc.FlashIf
