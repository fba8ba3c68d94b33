import DsdOrsoc.Schemes.Progress
import DsdOrsoc.FlashIf.Bridge

/-! Accesses through the flash bridge, for a master that holds its request until the acknowledge and
    then drops it. A request waits until the flash is ready, then runs through one or two half-word
    cycles of known length:

        cycle     L    L+1     L+2 ... L+2+W          L+3+W        ... a       a+1
        write    go    write0  write1  (strobe low    writeNext or ... write2  idle
                               from L+3)              write2

    `Pulses` lists the low pulses of `FLASH_SnWR` in a window with their address and data. -/

namespace DsdOrsoc.FlashIf
open Schemes

/-- The upper half of the word is selected. -/
def Access.upper (a : Access) : Bool := a.sel.extractLsb' 2 2 = 0b11

/-- The lower half of the word is selected. -/
def Access.lower (a : Access) : Bool := a.sel.extractLsb' 0 2 = 0b11

/-- The half-words that an access should write, in order: the upper half at `{adr[22:2], 0}`, the
    lower half at `{adr[22:2], 1}`, each with the bytes exchanged. -/
def Access.writes (a : Access) : List (BitVec 22 × BitVec 16) :=
  if a.we then
    (if a.upper then
        [(a.adr.extractLsb' 2 21 ++ 0#1, a.dat.extractLsb' 16 8 ++ a.dat.extractLsb' 24 8)]
      else []) ++
      (if a.lower then
        [(a.adr.extractLsb' 2 21 ++ 1#1, a.dat.extractLsb' 0 8 ++ a.dat.extractLsb' 8 8)]
      else [])
  else []

section Run

variable {d : Delays} (R : (Bridge.machine d).Run) (flash : ℕ → BitVec 22 → BitVec 16)

/-- The master holds its request until it is acknowledged, drops it in the next cycle, and selects
    the word or one of its halves. -/
structure Master : Prop where
  hold : ∀ t, (R.input t).req = true → (R.state t).wbAckO = false →
    (R.input (t + 1)).req = true ∧ (R.input (t + 1)).access = (R.input t).access
  drop : ∀ t, (R.input t).req = true → (R.state t).wbAckO = true → (R.input (t + 1)).req = false
  sel : ∀ t, (R.input t).req = true → (R.input t).access.sel ∈ [0b1111#4, 0b1100#4, 0b0011#4]

/-- The flash, with the contents that it has in each cycle, answers while it is enabled. -/
def Answers : Prop :=
  ∀ t, (R.state t).flashCeN = false → (R.state t).flashOeN = false →
    (R.input t).flashDI = flash t (R.state t).flashA

/-- The low pulses of `FLASH_SnWR` from cycle `t` to cycle `a`: each has its address and data stable
    from its first cycle to its last, and the strobe is high elsewhere. -/
def Pulses (t a : ℕ) : List (BitVec 22 × BitVec 16) → Prop
  | [] => ∀ u, t ≤ u → u ≤ a → (R.state u).flashSnWr = true
  | w :: ws => ∃ lo hi, t < lo ∧ lo ≤ hi ∧ hi < a ∧
      (∀ u, t ≤ u → u < lo → (R.state u).flashSnWr = true) ∧
      (∀ u, lo ≤ u → u ≤ hi → (R.state u).flashSnWr = false ∧ (R.state u).flashA = w.1 ∧
        (R.state u).flashDO = w.2) ∧
      Pulses (hi + 1) a ws

/-- A request begins in cycle `t`. -/
def Begins (t : ℕ) : Prop :=
  (R.input t).req = true ∧ ∀ u, u + 1 = t → (R.input u).req = false

/-- The request of cycle `t` is served with the acknowledge in cycle `a`. -/
structure Served (t a : ℕ) : Prop where
  le : t ≤ a
  /-- The one acknowledge. -/
  before : ∀ u, t ≤ u → u < a → (R.state u).wbAckO = false
  ack : (R.state a).wbAckO = true
  after : (R.state (a + 1)).wbAckO = false
  held : ∀ u, t ≤ u → u ≤ a →
    (R.input u).req = true ∧ (R.input u).access = (R.input t).access
  /-- The write strobes. -/
  pulses : Pulses R t a (R.input t).access.writes
  /-- The data of a read: a half-word of the flash with the bytes exchanged. -/
  readUpper : (R.input t).access.we = false → (R.input t).access.upper = true →
    ∃ u, t ≤ u ∧ u < a ∧
      (R.state a).wbDatO.extractLsb' 24 8 =
        (flash u ((R.input t).access.adr.extractLsb' 2 21 ++ 0#1)).extractLsb' 0 8 ∧
      (R.state a).wbDatO.extractLsb' 16 8 =
        (flash u ((R.input t).access.adr.extractLsb' 2 21 ++ 0#1)).extractLsb' 8 8
  readLower : (R.input t).access.we = false → (R.input t).access.lower = true →
    ∃ u, t ≤ u ∧ u < a ∧
      (R.state a).wbDatO.extractLsb' 8 8 =
        (flash u ((R.input t).access.adr.extractLsb' 2 21 ++ 1#1)).extractLsb' 0 8 ∧
      (R.state a).wbDatO.extractLsb' 0 8 =
        (flash u ((R.input t).access.adr.extractLsb' 2 21 ++ 1#1)).extractLsb' 8 8
  /-- Back at the start. -/
  idle : (R.state (a + 1)).state = .idle
  readDelay : (R.state (a + 1)).readDelay = 0
  writeDelay : (R.state (a + 1)).writeDelay = 0

/-- The request of cycle `t` waits: the flash is busy in every cycle from the request on, but for
    one in which the bridge leaves `reset`. -/
structure Waits (t : ℕ) : Prop where
  busy : ∀ u, t ≤ u → (R.input u).flashSts = true →
    (R.state u).state = .reset ∧ ∀ v, u < v → (R.input v).flashSts = false
  noAck : ∀ u, t ≤ u → (R.state u).wbAckO = false
  noStrobe : ∀ u, t ≤ u → (R.state u).flashSnWr = true

end Run

/-! ### Bytes -/

theorem swap_slice (x : BitVec 32) (n : ℕ) :
    swap (x.extractLsb' n 16) = x.extractLsb' n 8 ++ x.extractLsb' (n + 8) 8 := by
  rw [swap]
  congr 1
  · apply BitVec.eq_of_getLsbD_eq
    intro k hk
    simp only [BitVec.getLsbD_extractLsb', hk, decide_true, Bool.true_and, Nat.zero_add,
      show k < 16 by omega]
  · apply BitVec.eq_of_getLsbD_eq
    intro k hk
    simp only [BitVec.getLsbD_extractLsb', hk, decide_true, Bool.true_and, Nat.add_assoc,
      show 8 + k < 16 by omega]

/-- A half of a word that shows a half-word of the flash shows its bytes exchanged. -/
theorem bytes_of_swap {x : BitVec 32} {n : ℕ} {y : BitVec 16} (h : x.extractLsb' n 16 = swap y) :
    x.extractLsb' (n + 8) 8 = y.extractLsb' 0 8 ∧ x.extractLsb' n 8 = y.extractLsb' 8 8 := by
  have hx := swap_slice x n
  rw [h, swap, append_inj, swap, BitVec.extractLsb'_append_eq_left,
    BitVec.extractLsb'_append_eq_right] at hx
  exact ⟨hx.2.symm, hx.1.symm⟩

/-! ### Delays -/

section Delays

variable {d : Delays} {s : Bridge} {i : BridgeIn} {R : (Bridge.machine d).Run}

theorem state_succ (R : (Bridge.machine d).Run) (t : ℕ) :
    R.state (t + 1) = (R.state t).clk d (R.input t) := R.next t

theorem clk_strobe_low (hs : s.state = .write1 ∨ s.state = .writeNext0)
    (h : s.writeDelay.toNat < d.write) :
    s.clk d i =
      { s with flashCeN := false, flashSnWr := false, writeDelay := s.writeDelay + 1 } := by
  rcases hs with hs | hs <;> simp only [Bridge.clk, hs, Bridge.strobe] <;>
    rw [if_neg (by omega), ← hs]

/-- The strobe state lasts for the delay and one cycle, with address and data kept. -/
theorem strobe_run {x : FState} (hx : x = .write1 ∨ x = .writeNext0) (hw : d.write ≤ 30) {u : ℕ}
    (hs : (R.state u).state = x) (h0 : (R.state u).writeDelay = 0) {k : ℕ} (hk : k ≤ d.write) :
    (R.state (u + k)).state = x ∧ (R.state (u + k)).writeDelay.toNat = k ∧
      (R.state (u + k)).flashA = (R.state u).flashA ∧
      (R.state (u + k)).flashDO = (R.state u).flashDO := by
  induction k with
  | zero => exact ⟨hs, by rw [Nat.add_zero, h0]; rfl, rfl, rfl⟩
  | succ k ih =>
    obtain ⟨h1, h2, h3, h4⟩ := ih (by omega)
    have hadd := Bridge.toNat_add_one (x := (R.state (u + k)).writeDelay) (by omega)
    rw [← Nat.add_assoc, state_succ, clk_strobe_low (h1 ▸ hx) (by omega)]
    exact ⟨h1, hadd.trans (by omega), h3, h4⟩

theorem clk_access_low (hs : s.state = .read0 ∨ s.state = .readNext0)
    (h : s.readDelay.toNat < d.read) :
    s.clk d i = { s with flashOeN := false, flashCeN := false, readDelay := s.readDelay + 1 } := by
  rcases hs with hs | hs <;> simp only [Bridge.clk, hs, Bridge.access] <;>
    rw [if_neg (by omega), ← hs]

/-- The access state lasts for the delay and one cycle, with the address kept. -/
theorem access_run {x : FState} (hx : x = .read0 ∨ x = .readNext0) (hr : d.read ≤ 30) {u : ℕ}
    (hs : (R.state u).state = x) (h0 : (R.state u).readDelay = 0) {k : ℕ} (hk : k ≤ d.read) :
    (R.state (u + k)).state = x ∧ (R.state (u + k)).readDelay.toNat = k ∧
      (R.state (u + k)).flashA = (R.state u).flashA ∧
      (R.state (u + k)).wbDatO = (R.state u).wbDatO := by
  induction k with
  | zero => exact ⟨hs, by rw [Nat.add_zero, h0]; rfl, rfl, rfl⟩
  | succ k ih =>
    obtain ⟨h1, h2, h3, h4⟩ := ih (by omega)
    have hadd := Bridge.toNat_add_one (x := (R.state (u + k)).readDelay) (by omega)
    rw [← Nat.add_assoc, state_succ, clk_access_low (h1 ▸ hx) (by omega)]
    exact ⟨h1, hadd.trans (by omega), h3, h4⟩

end Delays

/-! ### Windows -/

section Windows

variable {d : Delays} {R : (Bridge.machine d).Run} {t u v a : ℕ}

/-- The bridge is at rest or on its way to an acknowledge. -/
def NoAck (R : (Bridge.machine d).Run) (t u : ℕ) : Prop :=
  ∀ v, t ≤ v → v < u → (R.state v).wbAckO = false

theorem NoAck.trans (h : NoAck R t u) (h' : NoAck R u v) : NoAck R t v := fun w h1 h2 => by
  rcases Nat.lt_or_ge w u with hw | hw
  · exact h w h1 hw
  · exact h' w hw h2

theorem Master.held (hm : Master R) (hreq : (R.input t).req = true) (h : NoAck R t u)
    (htu : t ≤ u) :
    (R.input u).req = true ∧ (R.input u).access = (R.input t).access := by
  induction u, htu using Nat.le_induction with
  | base => exact ⟨hreq, rfl⟩
  | succ u htu ih =>
    obtain ⟨h1, h2⟩ := ih (fun v hv hlt => h v hv (by omega))
    obtain ⟨h3, h4⟩ := hm.hold u h1 (h u htu (by omega))
    exact ⟨h3, h4.trans h2⟩

/-- A window before the first pulse. -/
theorem Pulses.extend (htu : t ≤ u) (hhigh : ∀ v, t ≤ v → v < u → (R.state v).flashSnWr = true)
    {ws : List (BitVec 22 × BitVec 16)} (h : Pulses R u a ws) : Pulses R t a ws := by
  have hcase : ∀ {P : ℕ → Prop}, (∀ v, t ≤ v → v < u → P v) → ∀ w, (∀ v, u ≤ v → v < w → P v) →
      ∀ v, t ≤ v → v < w → P v := by
    intro P h1 w h2 v hv hlt
    rcases Nat.lt_or_ge v u with hvu | hvu
    · exact h1 v hv hvu
    · exact h2 v hvu hlt
  cases ws with
  | nil =>
    intro v hv hle
    exact hcase hhigh (a + 1) (fun v h1 h2 => h v h1 (by omega)) v hv (by omega)
  | cons w ws =>
    obtain ⟨lo, hi, h1, h2, h3, h4, h5, h6⟩ := h
    exact ⟨lo, hi, by omega, h2, h3, hcase hhigh lo h4, h5, h6⟩

/-- A strobe is one pulse. -/
theorem Pulses.strobe {x : FState} (hx : x = .write1 ∨ x = .writeNext0) (hw1 : 1 ≤ d.write)
    (hok : ∀ t, (R.state t).Ok d) (hw : d.write ≤ 30) (hs : (R.state u).state = x)
    (h0 : (R.state u).writeDelay = 0) {ws : List (BitVec 22 × BitVec 16)}
    (h : Pulses R (u + d.write + 1) a ws) (ha : u + d.write < a) :
    Pulses R u a (((R.state u).flashA, (R.state u).flashDO) :: ws) := by
  refine ⟨u + 1, u + d.write, by omega, by omega, ha, ?_, ?_, h⟩
  · intro v hv hlt
    obtain rfl : v = u := by omega
    rw [(hok v).wr, h0]
    simp
  · intro v hv hle
    obtain ⟨k, rfl⟩ := Nat.exists_eq_add_of_le (show u ≤ v by omega)
    obtain ⟨h1, h2, h3, h4⟩ := strobe_run hx hw hs h0 (show k ≤ d.write by omega)
    have hne : (R.state (u + k)).writeDelay ≠ 0 := by
      intro h0
      rw [h0] at h2
      simp at h2
      omega
    refine ⟨?_, h3, h4⟩
    rw [(hok _).wr, h1]
    simpa [hx] using hne

theorem no_ack {s : Bridge} (h : s.Ok d) (h1 : s.state ≠ .write2) (h2 : s.state ≠ .read2) :
    s.wbAckO = false := by
  rw [h.ack]
  simp [h1, h2]

theorem strobe_high {s : Bridge} (h : s.Ok d) (h1 : s.state ≠ .write1)
    (h2 : s.state ≠ .writeNext0) : s.flashSnWr = true := by
  rw [h.wr]
  simp [h1, h2]

end Windows

/-! ### Half-words -/

section Halves

variable {d : Delays} {R : (Bridge.machine d).Run} {flash : ℕ → BitVec 22 → BitVec 16} {u : ℕ}
  {acc : Access}

/-- A half-word cycle from `u` to `v`. -/
structure Cycle (R : (Bridge.machine d).Run) (u v : ℕ) (ws : List (BitVec 22 × BitVec 16)) :
    Prop where
  lt : u < v
  noAck : NoAck R u v
  pulses : ∀ a rest, v ≤ a → Pulses R v a rest → Pulses R u a (ws ++ rest)

theorem Cycle.trans {v w : ℕ} {ws ws' : List (BitVec 22 × BitVec 16)} (h : Cycle R u v ws)
    (h' : Cycle R v w ws') : Cycle R u w (ws ++ ws') := by
  refine ⟨h.lt.trans h'.lt, h.noAck.trans h'.noAck, fun a rest ha hp => ?_⟩
  rw [List.append_assoc]
  exact h.pulses a _ (h'.lt.le.trans ha) (h'.pulses a rest ha hp)

/-- One cycle in a state without acknowledge and strobe. -/
theorem Cycle.single (hok : ∀ t, (R.state t).Ok d)
    (hs : (R.state u).state ∉ [FState.write1, .writeNext0, .write2, .read2]) :
    Cycle R u (u + 1) [] := by
  simp only [List.mem_cons, List.not_mem_nil, or_false, not_or] at hs
  obtain ⟨h1, h2, h3, h4⟩ := hs
  refine ⟨by omega, fun v hv hlt => ?_, fun a rest _ hp => hp.extend (by omega) fun v hv hlt => ?_⟩
  all_goals obtain rfl : v = u := by omega
  · exact no_ack (hok v) h3 h4
  · exact strobe_high (hok v) h1 h2

/-- The strobe state up to its last cycle. -/
theorem Cycle.strobe {x : FState} (hx : x = .write1 ∨ x = .writeNext0) (hw1 : 1 ≤ d.write)
    (hok : ∀ t, (R.state t).Ok d) (hw : d.write ≤ 30) (hs : (R.state u).state = x)
    (h0 : (R.state u).writeDelay = 0) :
    Cycle R u (u + d.write + 1) [((R.state u).flashA, (R.state u).flashDO)] := by
  refine ⟨by omega, fun v hv hlt => ?_, fun a rest ha hp => ?_⟩
  · obtain ⟨k, rfl⟩ := Nat.exists_eq_add_of_le hv
    obtain ⟨h1, -⟩ := strobe_run hx hw hs h0 (show k ≤ d.write by omega)
    apply no_ack (hok _) <;> rw [h1] <;> rcases hx with rfl | rfl <;> decide
  · exact hp.strobe hx hw1 hok hw hs h0 (by omega)

/-- The access state up to its last cycle. -/
theorem Cycle.access {x : FState} (hx : x = .read0 ∨ x = .readNext0)
    (hok : ∀ t, (R.state t).Ok d) (hr : d.read ≤ 30) (hs : (R.state u).state = x)
    (h0 : (R.state u).readDelay = 0) : Cycle R u (u + d.read + 1) [] := by
  have hst : ∀ v, u ≤ v → v < u + d.read + 1 → (R.state v).state = x := by
    intro v hv hlt
    obtain ⟨k, rfl⟩ := Nat.exists_eq_add_of_le hv
    exact (access_run hx hr hs h0 (show k ≤ d.read by omega)).1
  refine ⟨by omega, fun v hv hlt => ?_, fun a rest ha hp => hp.extend (by omega) fun v hv hlt => ?_⟩
  · apply no_ack (hok _) <;> rw [hst v hv hlt] <;> rcases hx with rfl | rfl <;> decide
  · apply strobe_high (hok _) <;> rw [hst v hv hlt] <;> rcases hx with rfl | rfl <;> decide

/-- The lower half of a write. -/
theorem write_lower (hok : ∀ t, (R.state t).Ok d) (hw1 : 1 ≤ d.write) (hw : d.write ≤ 30)
    (hs : (R.state u).state = .writeNext) (hacc : (R.input u).access = acc) :
    ∃ a, Cycle R u a [(half acc.adr true, swap (acc.dat.extractLsb' 0 16))] ∧
      (R.state a).state = .write2 := by
  have h1 := Cycle.single (R := R) (u := u) hok (by simp [hs])
  have hnext := state_succ R u
  simp only [Bridge.clk, hs, hacc] at hnext
  have hs' : (R.state (u + 1)).state = .writeNext0 := by rw [hnext]
  have h0 : (R.state (u + 1)).writeDelay = 0 := by rw [hnext]
  have hA : (R.state (u + 1)).flashA = half acc.adr true := by rw [hnext]
  have hD : (R.state (u + 1)).flashDO = swap (acc.dat.extractLsb' 0 16) := by rw [hnext]
  have h2 := Cycle.strobe (.inr rfl) hw1 hok hw hs' h0
  rw [hA, hD] at h2
  refine ⟨_, h1.trans h2, ?_⟩
  obtain ⟨he, hwd, -⟩ := strobe_run (.inr rfl) hw hs' h0 (le_refl d.write)
  rw [state_succ]
  simp only [Bridge.clk, he, Bridge.strobe, hwd, le_refl, if_true]

/-- The upper half of a write. -/
theorem write_upper (hm : Master R) (hok : ∀ t, (R.state t).Ok d) (hw1 : 1 ≤ d.write)
    (hw : d.write ≤ 30) (hs : (R.state u).state = .write0) (hreq : (R.input u).req = true)
    (hacc : (R.input u).access = acc) (hA : (R.state u).flashA = half acc.adr false) :
    ∃ v, Cycle R u v [(half acc.adr false, swap (acc.dat.extractLsb' 16 16))] ∧
      (R.state v).state = if acc.sel23 then .write2 else .writeNext := by
  have h1 := Cycle.single (R := R) (u := u) hok (by simp [hs])
  have hnext := state_succ R u
  simp only [Bridge.clk, hs, hacc] at hnext
  have hs' : (R.state (u + 1)).state = .write1 := by rw [hnext]
  have h0 : (R.state (u + 1)).writeDelay = 0 := by
    rw [hnext]
    exact (hok u).no_writeDelay (by simp [hs])
  have hA' : (R.state (u + 1)).flashA = half acc.adr false := by rw [hnext]; exact hA
  have hD : (R.state (u + 1)).flashDO = swap (acc.dat.extractLsb' 16 16) := by rw [hnext]
  have h2 := Cycle.strobe (.inl rfl) hw1 hok hw hs' h0
  rw [hA', hD] at h2
  refine ⟨_, h1.trans h2, ?_⟩
  obtain ⟨he, hwd, -⟩ := strobe_run (.inl rfl) hw hs' h0 (le_refl d.write)
  have hin : (R.input (u + 1 + d.write)).access = acc := by
    rw [← hacc]
    exact (hm.held hreq (fun v hv hlt => (h1.trans h2).noAck v hv (by omega)) (by omega)).2
  rw [state_succ]
  simp only [Bridge.clk, he, Bridge.strobe, hwd, le_refl, if_true, hin]
  split <;> rfl

/-- The end of the access time: the flash is enabled at the address of the beginning. -/
theorem access_end {x y : FState}
    (hx : (x = .read0 ∧ y = .read1) ∨ (x = .readNext0 ∧ y = .readNext1))
    (hr : d.read ≤ 30) (hs : (R.state u).state = x) (h0 : (R.state u).readDelay = 0) :
    (R.state (u + d.read + 1)).state = y ∧ (R.state (u + d.read + 1)).flashCeN = false ∧
      (R.state (u + d.read + 1)).flashOeN = false ∧
      (R.state (u + d.read + 1)).flashA = (R.state u).flashA ∧
      (R.state (u + d.read + 1)).wbDatO = (R.state u).wbDatO := by
  have hx' : x = .read0 ∨ x = .readNext0 := hx.imp And.left And.left
  obtain ⟨h1, h2, h3, h4⟩ := access_run hx' hr hs h0 (le_refl d.read)
  rw [state_succ]
  rcases hx with ⟨rfl, rfl⟩ | ⟨rfl, rfl⟩ <;>
    simp only [Bridge.clk, h1, Bridge.access, h2, le_refl, if_true] <;>
    exact ⟨trivial, trivial, trivial, h3, h4⟩

/-- The lower half of a read. -/
theorem read_lower (hok : ∀ t, (R.state t).Ok d) (hr : d.read ≤ 30) (hf : Answers R flash)
    (hs : (R.state u).state = .readNext) (hacc : (R.input u).access = acc) :
    ∃ a, Cycle R u a [] ∧ (R.state a).state = .read2 ∧
      (R.state a).wbDatO.extractLsb' 16 16 = (R.state u).wbDatO.extractLsb' 16 16 ∧
      ∃ w, u ≤ w ∧ w < a ∧
        (R.state a).wbDatO.extractLsb' 0 16 = swap (flash w (half acc.adr true)) := by
  have h1 := Cycle.single (R := R) (u := u) hok (by simp [hs])
  have hnext := state_succ R u
  simp only [Bridge.clk, hs, hacc] at hnext
  have hs' : (R.state (u + 1)).state = .readNext0 := by rw [hnext]
  have h0 : (R.state (u + 1)).readDelay = 0 := by rw [hnext]
  have hA : (R.state (u + 1)).flashA = half acc.adr true := by rw [hnext]
  have hO : (R.state (u + 1)).wbDatO = (R.state u).wbDatO := by rw [hnext]
  have h2 := Cycle.access (.inr rfl) hok hr hs' h0
  obtain ⟨he, hce, hoe, hA', hO'⟩ := access_end (.inr ⟨rfl, rfl⟩) hr hs' h0
  have h3 := Cycle.single (R := R) (u := u + 1 + d.read + 1) hok (by simp [he])
  have hlast := state_succ R (u + 1 + d.read + 1)
  simp only [Bridge.clk, he, hf _ hce hoe, hA', hA, hO', hO] at hlast
  refine ⟨_, (h1.trans h2).trans h3, by rw [hlast], ?_, u + 1 + d.read + 1, by omega, by omega, ?_⟩
  · rw [hlast]
    exact BitVec.extractLsb'_append_eq_left
  · rw [hlast]
    exact BitVec.extractLsb'_append_eq_right

/-- The upper half of a read. -/
theorem read_upper (hm : Master R) (hok : ∀ t, (R.state t).Ok d) (hr : d.read ≤ 30)
    (hf : Answers R flash) (hs : (R.state u).state = .read0) (hreq : (R.input u).req = true)
    (hacc : (R.input u).access = acc) (hA : (R.state u).flashA = half acc.adr false)
    (h0 : (R.state u).readDelay = 0) :
    ∃ v, Cycle R u v [] ∧ (R.state v).state = (if acc.sel23 then .read2 else .readNext) ∧
      ∃ w, u ≤ w ∧ w < v ∧
        (R.state v).wbDatO.extractLsb' 16 16 = swap (flash w (half acc.adr false)) := by
  have h2 := Cycle.access (.inl rfl) hok hr hs h0
  obtain ⟨he, hce, hoe, hA', hO'⟩ := access_end (.inl ⟨rfl, rfl⟩) hr hs h0
  have h3 := Cycle.single (R := R) (u := u + d.read + 1) hok (by simp [he])
  have hin : (R.input (u + d.read + 1)).access = acc := by
    rw [← hacc]
    exact (hm.held hreq h2.noAck (by omega)).2
  have hlast := state_succ R (u + d.read + 1)
  simp only [Bridge.clk, he, hf _ hce hoe, hA', hA, hin] at hlast
  refine ⟨_, h2.trans h3, ?_, u + d.read + 1, by omega, by omega, ?_⟩
  · rw [hlast]
    split <;> rfl
  · rw [hlast]
    split <;> exact BitVec.extractLsb'_append_eq_left

end Halves

/-! ### Requests -/

section Requests

variable {d : Delays} {R : (Bridge.machine d).Run} {flash : ℕ → BitVec 22 → BitVec 16} {t u : ℕ}
  {acc : Access}

/-- The bridge has not begun an access. -/
def Waiting (s : Bridge) : Prop := s.state = .reset ∨ s.state = .idle ∨ s.state = .check

/-- The bridge begins an access in this cycle. -/
def Launches (R : (Bridge.machine d).Run) (u : ℕ) : Prop :=
  ((R.state u).state = .idle ∨ (R.state u).state = .check) ∧ (R.input u).flashSts = true

/-- An access under way has its request. -/
theorem Master.req_of_busy (hm : Master R) (hok : ∀ t, (R.state t).Ok d) (t : ℕ) :
    (R.state t).state = .reset ∨ (R.state t).state = .idle ∨ (R.input t).req = true := by
  induction t with
  | zero => exact .inl (by rw [show R.state 0 = Bridge.init from R.start]; rfl)
  | succ t ih =>
    by_cases hreq : (R.input t).req = true
    · by_cases hack : (R.state t).wbAckO = true
      · have hs := (hok t).ack.symm.trans hack
        simp only [decide_eq_true_eq] at hs
        rw [state_succ]
        rcases hs with hs | hs <;> simp [Bridge.clk, hs]
      · exact .inr (.inr (hm.hold t hreq (by simpa using hack)).1)
    · rw [state_succ]
      rcases ih with hs | hs | hs
      · cases hsts : (R.input t).flashSts <;> simp [Bridge.clk, hs, hsts]
      · simp [Bridge.clk, hs, hreq]
      · exact absurd hs hreq

theorem Begins.state (hm : Master R) (hok : ∀ t, (R.state t).Ok d) (hb : Begins R t) :
    (R.state t).state = .reset ∨ (R.state t).state = .idle := by
  cases t with
  | zero => exact .inl (by rw [show R.state 0 = Bridge.init from R.start]; rfl)
  | succ t =>
    have hreq := hb.2 t rfl
    rw [state_succ]
    rcases hm.req_of_busy hok t with hs | hs | hs
    · cases hsts : (R.input t).flashSts <;> simp [Bridge.clk, hs, hsts]
    · simp [Bridge.clk, hs, hreq]
    · rw [hreq] at hs
      cases hs

theorem clk_eq_check {s : Bridge} {i : BridgeIn} (h : (s.clk d i).state = .check) :
    (s.state = .idle ∧ i.req = true ∧
      (s.clk d i).flashA = half i.access.adr i.access.sel01) ∨
    (s.state = .check ∧ (s.clk d i).flashA = s.flashA) := by
  cases hs : s.state <;>
    simp only [Bridge.clk, hs, Bridge.launch, Bridge.strobe, Bridge.access] at h ⊢ <;>
    grind

/-- In `check` the address of the request is already out. -/
theorem Master.check_addr (hm : Master R) (hok : ∀ t, (R.state t).Ok d) (t : ℕ)
    (hs : (R.state t).state = .check) :
    (R.state t).flashA = half (R.input t).access.adr (R.input t).access.sel01 := by
  induction t with
  | zero => rw [show R.state 0 = Bridge.init from R.start] at hs; cases hs
  | succ t ih =>
    rw [state_succ] at hs ⊢
    rcases clk_eq_check hs with ⟨hs', hreq, hA⟩ | ⟨hs', hA⟩
    · rw [hA, (hm.hold t hreq (no_ack (hok t) (by simp [hs']) (by simp [hs']))).2]
    · have hreq : (R.input t).req = true := by
        have := hm.req_of_busy hok t
        simpa [hs'] using this
      rw [hA, ih hs', (hm.hold t hreq (no_ack (hok t) (by simp [hs']) (by simp [hs']))).2]

/-- The first cycle of an access. -/
theorem Launches.next (hm : Master R) (hok : ∀ t, (R.state t).Ok d) (hl : Launches R u)
    (hreq : (R.input u).req = true) (hacc : (R.input u).access = acc) :
    (R.state (u + 1)).flashA = half acc.adr acc.sel01 ∧ (R.state (u + 1)).readDelay = 0 ∧
      (R.state (u + 1)).state =
        if acc.we then (if acc.sel01 then .writeNext else .write0)
        else (if acc.sel01 then .readNext else .read0) := by
  obtain ⟨hs, hsts⟩ := hl
  have hrd : (R.state u).readDelay = 0 := by
    rcases hs with hs | hs <;> exact (hok u).no_readDelay (by simp [hs])
  rw [state_succ]
  rcases hs with hs | hs
  · simp only [Bridge.clk, hs, hreq, hsts, if_true, Bridge.launch, hacc]
    split <;> exact ⟨rfl, hrd, rfl⟩
  · have hA := hm.check_addr hok u hs
    rw [hacc] at hA
    simp only [Bridge.clk, hs, hsts, if_true, Bridge.launch, hacc]
    split <;> exact ⟨hA, hrd, rfl⟩

theorem Launches.held (hm : Master R) (hok : ∀ t, (R.state t).Ok d) (hl : Launches R u)
    (hreq : (R.input u).req = true) (hacc : (R.input u).access = acc) :
    (R.input (u + 1)).req = true ∧ (R.input (u + 1)).access = acc := by
  have hack : (R.state u).wbAckO = false := by
    rcases hl.1 with h | h <;> exact no_ack (hok u) (by simp [h]) (by simp [h])
  rw [← hacc]
  exact hm.hold u hreq hack

theorem Waiting.noAck {s : Bridge} (hw : Waiting s) (hok : s.Ok d) : s.wbAckO = false := by
  rcases hw with h | h | h <;> exact no_ack hok (by simp [h]) (by simp [h])

theorem Waiting.strobeHigh {s : Bridge} (hw : Waiting s) (hok : s.Ok d) : s.flashSnWr = true := by
  rcases hw with h | h | h <;> exact strobe_high hok (by simp [h]) (by simp [h])

theorem Waiting.step (hw : Waiting (R.state u)) (hreq : (R.input u).req = true)
    (hl : ¬ Launches R u) : Waiting (R.state (u + 1)) := by
  have hsts : (R.state u).state = .idle ∨ (R.state u).state = .check →
      (R.input u).flashSts = false := by
    intro hs
    by_contra hsts
    exact hl ⟨hs, by simpa using hsts⟩
  rw [state_succ]
  unfold Waiting
  rcases hw with h | h | h
  · simp only [Bridge.clk, h]
    cases (R.input u).flashSts <;> simp
  · simp [Bridge.clk, h, hreq, hsts (.inl h)]
  · simp [Bridge.clk, h, hsts (.inr h)]

/-- Until the access is begun the bridge waits. -/
theorem waiting_until (hm : Master R) (hok : ∀ t, (R.state t).Ok d) (hb : Begins R t) (htu : t ≤ u)
    (hno : ∀ v, t ≤ v → v < u → ¬ Launches R v) : Waiting (R.state u) ∧ NoAck R t u := by
  induction u, htu using Nat.le_induction with
  | base =>
    refine ⟨?_, fun v h1 h2 => by omega⟩
    rcases hb.state hm hok with h | h
    · exact .inl h
    · exact .inr (.inl h)
  | succ u htu ih =>
    obtain ⟨hw, hna⟩ := ih fun v h1 h2 => hno v h1 (by omega)
    refine ⟨hw.step (hm.held hb.1 hna htu).1 (hno u htu (by omega)), fun v h1 h2 => ?_⟩
    rcases Nat.lt_or_ge v u with hv | hv
    · exact hna v h1 hv
    · obtain rfl : v = u := by omega
      exact hw.noAck (hok v)

/-- The cycles of a request before and with the launch. -/
theorem Cycle.waiting (hm : Master R) (hok : ∀ t, (R.state t).Ok d) (hb : Begins R t) (htu : t ≤ u)
    (hno : ∀ v, t ≤ v → v < u → ¬ Launches R v) : Cycle R t (u + 1) [] := by
  have hw : ∀ v, t ≤ v → v < u + 1 → Waiting (R.state v) := fun v h1 h2 =>
    (waiting_until hm hok hb h1 fun w h3 h4 => hno w h3 (by omega)).1
  exact ⟨by omega, fun v h1 h2 => (hw v h1 h2).noAck (hok v), fun a rest _ hp =>
    hp.extend (by omega) fun v h1 h2 => (hw v h1 h2).strobeHigh (hok v)⟩

/-- The bridge does not come back to `reset`. -/
theorem clk_ne_reset {s : Bridge} {i : BridgeIn} (hs : s.state ≠ .reset ∨ i.flashSts = true) :
    (s.clk d i).state ≠ .reset := by
  cases h : s.state <;>
    simp only [Bridge.clk, h, Bridge.launch, Bridge.strobe, Bridge.access] <;>
    grind

/-- A request that never launches waits for the flash. -/
theorem waits_of_no_launch (hm : Master R) (hok : ∀ t, (R.state t).Ok d) (hb : Begins R t)
    (hno : ∀ v, t ≤ v → ¬ Launches R v) : Waits R t := by
  have hw : ∀ u, t ≤ u → Waiting (R.state u) := fun u h =>
    (waiting_until hm hok hb h fun v h1 _ => hno v h1).1
  -- a bridge that waits and is not in reset looks at the flash
  have hreset : ∀ u, t ≤ u → (R.input u).flashSts = true → (R.state u).state = .reset := by
    intro u hu hsts
    by_contra hne
    exact hno u hu ⟨(hw u hu).resolve_left hne, hsts⟩
  refine ⟨fun u hu hsts => ⟨hreset u hu hsts, fun v huv => ?_⟩, fun u h => (hw u h).noAck (hok u),
    fun u h => (hw u h).strobeHigh (hok u)⟩
  have hout : (R.state v).state ≠ .reset := by
    induction v, huv using Nat.le_induction with
    | base =>
      rw [state_succ]
      exact clk_ne_reset (.inr hsts)
    | succ v huv ih =>
      rw [state_succ]
      exact clk_ne_reset (.inl ih)
  by_contra hv
  exact hout (hreset v (by omega) (by simpa using hv))

/-- What the three selections mean. -/
theorem Access.sel_cases {a : Access} (h : a.sel ∈ [0b1111#4, 0b1100#4, 0b0011#4]) :
    (a.sel01 = false ∧ a.sel23 = false ∧ a.upper = true ∧ a.lower = true) ∨
    (a.sel01 = false ∧ a.sel23 = true ∧ a.upper = true ∧ a.lower = false) ∨
    (a.sel01 = true ∧ a.sel23 = false ∧ a.upper = false ∧ a.lower = true) := by
  unfold Access.sel01 Access.sel23 Access.upper Access.lower
  generalize a.sel = x at *
  revert x
  decide

/-- A write from its first cycle to its acknowledge. -/
theorem serve_write (hm : Master R) (hok : ∀ t, (R.state t).Ok d) (hw1 : 1 ≤ d.write)
    (hw : d.write ≤ 30) (hl : Launches R u) (hreq : (R.input u).req = true)
    (hacc : (R.input u).access = acc) (hwe : acc.we = true) :
    ∃ a, Cycle R (u + 1) a acc.writes ∧ (R.state a).state = .write2 := by
  obtain ⟨hA, -, hs⟩ := hl.next hm hok hreq hacc
  obtain ⟨hreq', hacc'⟩ := hl.held hm hok hreq hacc
  rw [hwe, if_pos rfl] at hs
  have hwrites : acc.writes =
      (if acc.upper then [(half acc.adr false, swap (acc.dat.extractLsb' 16 16))] else []) ++
        (if acc.lower then [(half acc.adr true, swap (acc.dat.extractLsb' 0 16))] else []) := by
    rw [swap_slice, swap_slice, Access.writes, if_pos hwe]
    rfl
  rw [hwrites]
  rcases Access.sel_cases (hacc ▸ hm.sel u hreq) with
    ⟨h01, h23, hup, hlow⟩ | ⟨h01, h23, hup, hlow⟩ | ⟨h01, h23, hup, hlow⟩ <;>
    simp only [h01, hup, hlow, if_true, Bool.false_eq_true, if_false] at hs hA ⊢
  · obtain ⟨v, hc, hv⟩ := write_upper hm hok hw1 hw hs hreq' hacc' hA
    rw [h23, if_neg Bool.false_ne_true] at hv
    have hheld := (hm.held hreq' hc.noAck hc.lt.le).2
    obtain ⟨a, hc', ha⟩ := write_lower hok hw1 hw hv (hheld.trans hacc')
    exact ⟨a, hc.trans hc', ha⟩
  · obtain ⟨v, hc, hv⟩ := write_upper hm hok hw1 hw hs hreq' hacc' hA
    rw [h23, if_pos rfl] at hv
    exact ⟨v, hc, hv⟩
  · exact write_lower hok hw1 hw hs hacc'

/-- A read from its first cycle to its acknowledge. -/
theorem serve_read (hm : Master R) (hok : ∀ t, (R.state t).Ok d) (hr : d.read ≤ 30)
    (hf : Answers R flash) (hl : Launches R u) (hreq : (R.input u).req = true)
    (hacc : (R.input u).access = acc) (hwe : acc.we = false) :
    ∃ a, Cycle R (u + 1) a [] ∧ (R.state a).state = .read2 ∧
      (acc.upper = true → ∃ w, u + 1 ≤ w ∧ w < a ∧
        (R.state a).wbDatO.extractLsb' 16 16 = swap (flash w (half acc.adr false))) ∧
      (acc.lower = true → ∃ w, u + 1 ≤ w ∧ w < a ∧
        (R.state a).wbDatO.extractLsb' 0 16 = swap (flash w (half acc.adr true))) := by
  obtain ⟨hA, h0, hs⟩ := hl.next hm hok hreq hacc
  obtain ⟨hreq', hacc'⟩ := hl.held hm hok hreq hacc
  rw [hwe, if_neg Bool.false_ne_true] at hs
  rcases Access.sel_cases (hacc ▸ hm.sel u hreq) with
    ⟨h01, h23, hup, hlow⟩ | ⟨h01, h23, hup, hlow⟩ | ⟨h01, h23, hup, hlow⟩ <;>
    simp only [h01, if_true, Bool.false_eq_true, if_false] at hs hA
  · obtain ⟨v, hc, hv, w, hw1, hw2, hd⟩ := read_upper hm hok hr hf hs hreq' hacc' hA h0
    rw [h23, if_neg Bool.false_ne_true] at hv
    have hheld := (hm.held hreq' hc.noAck hc.lt.le).2
    obtain ⟨a, hc', ha, hkeep, x, hx1, hx2, hd'⟩ :=
      read_lower hok hr hf hv (hheld.trans hacc')
    refine ⟨a, hc.trans hc', ha, fun _ => ⟨w, hw1, hw2.trans hc'.lt, hkeep.trans hd⟩, fun _ =>
      ⟨x, hc.lt.le.trans hx1, hx2, hd'⟩⟩
  · obtain ⟨v, hc, hv, w, hw1, hw2, hd⟩ := read_upper hm hok hr hf hs hreq' hacc' hA h0
    rw [h23, if_pos rfl] at hv
    refine ⟨v, hc, hv, fun _ => ⟨w, hw1, hw2, hd⟩, fun h => ?_⟩
    rw [hlow] at h
    cases h
  · obtain ⟨a, hc, ha, -, w, hw1, hw2, hd⟩ := read_lower hok hr hf hs hacc'
    refine ⟨a, hc, ha, fun h => ?_, fun _ => ⟨w, hw1, hw2, hd⟩⟩
    rw [hup] at h
    cases h

theorem idle_delays {s : Bridge} (h : s.Ok d) (hs : s.state = .idle) :
    s.readDelay = 0 ∧ s.writeDelay = 0 :=
  ⟨h.no_readDelay (by simp [hs]), h.no_writeDelay (by simp [hs])⟩

/-- The end of an access. -/
theorem served_end (hok : ∀ t, (R.state t).Ok d)
    (hs : (R.state u).state = .write2 ∨ (R.state u).state = .read2) :
    (R.state u).wbAckO = true ∧ (R.state u).flashSnWr = true ∧
      (R.state (u + 1)).state = .idle ∧ (R.state (u + 1)).wbAckO = false ∧
      (R.state (u + 1)).readDelay = 0 ∧ (R.state (u + 1)).writeDelay = 0 := by
  have hidle : (R.state (u + 1)).state = .idle := by
    rw [state_succ]
    rcases hs with hs | hs <;> simp only [Bridge.clk, hs]
  refine ⟨by rw [(hok u).ack]; simpa using hs, ?_, hidle, ?_, idle_delays (hok _) hidle⟩
  · rcases hs with hs | hs <;> exact strobe_high (hok u) (by simp [hs]) (by simp [hs])
  · exact no_ack (hok _) (by simp [hidle]) (by simp [hidle])

theorem served_or_waits (hm : Master R) (hf : Answers R flash) (hok : ∀ t, (R.state t).Ok d)
    (hw1 : 1 ≤ d.write) (hw : d.write ≤ 30) (hr : d.read ≤ 30) (hb : Begins R t) :
    (∃ a, Served R flash t a) ∨ Waits R t := by
  by_cases hl : ∃ u, t ≤ u ∧ Launches R u
  · left
    obtain ⟨u, htu, hlu, hno⟩ := first_time hl
    have hwait := Cycle.waiting hm hok hb htu hno
    obtain ⟨hreq, hacc⟩ := hm.held hb.1 (waiting_until hm hok hb htu hno).2 htu
    -- the launch and what follows it, for a write and for a read
    have hserve : ∃ a, Cycle R (u + 1) a (R.input t).access.writes ∧
        ((R.state a).state = .write2 ∨ (R.state a).state = .read2) ∧
        ((R.input t).access.we = false → (R.input t).access.upper = true →
          ∃ w, u + 1 ≤ w ∧ w < a ∧ (R.state a).wbDatO.extractLsb' 16 16 =
            swap (flash w (half (R.input t).access.adr false))) ∧
        ((R.input t).access.we = false → (R.input t).access.lower = true →
          ∃ w, u + 1 ≤ w ∧ w < a ∧ (R.state a).wbDatO.extractLsb' 0 16 =
            swap (flash w (half (R.input t).access.adr true))) := by
      cases hwe : (R.input t).access.we with
      | true =>
        obtain ⟨a, hc, ha⟩ := serve_write hm hok hw1 hw hlu hreq hacc hwe
        exact ⟨a, hc, .inl ha, nofun, nofun⟩
      | false =>
        obtain ⟨a, hc, ha, h1, h2⟩ := serve_read hm hok hr hf hlu hreq hacc hwe
        refine ⟨a, ?_, .inr ha, fun _ => h1, fun _ => h2⟩
        rw [Access.writes, hwe]
        exact hc
    obtain ⟨a, hc, ha, h1, h2⟩ := hserve
    have hall := hwait.trans hc
    obtain ⟨hack, hhigh, hidle, hafter, hrd, hwd⟩ := served_end hok ha
    have hp : Pulses R t a ([] ++ (R.input t).access.writes ++ []) :=
      hall.pulses a [] (le_refl a) fun v h1 h2 => by
        obtain rfl : v = a := by omega
        exact hhigh
    refine ⟨a, ⟨hall.lt.le, hall.noAck, hack, hafter, fun v h1 h2 => ?_, by simpa using hp,
      fun h3 h4 => ?_, fun h3 h4 => ?_, hidle, hrd, hwd⟩⟩
    · exact hm.held hb.1 (fun w h3 h4 => hall.noAck w h3 (by omega)) h1
    · obtain ⟨w, hw1, hw2, hd⟩ := h1 h3 h4
      exact ⟨w, by omega, hw2, bytes_of_swap hd⟩
    · obtain ⟨w, hw1, hw2, hd⟩ := h2 h3 h4
      exact ⟨w, by omega, hw2, bytes_of_swap hd⟩
  · push Not at hl
    exact .inr (waits_of_no_launch hm hok hb hl)

/-- Every request is served by the right flash cycles with one acknowledge, unless the flash is busy
    in every cycle from the request on, but for one that lets the bridge out of `reset`; without a
    request there is no acknowledge and no strobe; and in `idle` both delay counters are zero. -/
theorem accesses_served {d : Delays} (hw1 : 1 ≤ d.write) (hw : d.write ≤ 30) (hr : d.read ≤ 30)
    (R : (Bridge.machine d).Run) (flash : ℕ → BitVec 22 → BitVec 16) (hm : Master R)
    (hf : Answers R flash) :
    (∀ t, Begins R t → (∃ a, Served R flash t a) ∨ Waits R t) ∧
    (∀ t, (R.input t).req = false →
      (R.state t).wbAckO = false ∧ (R.state t).flashSnWr = true) ∧
    (∀ t, (R.state t).state = .idle →
      (R.state t).readDelay = 0 ∧ (R.state t).writeDelay = 0) := by
  have hok := Bridge.ok_of_run R hw hr
  refine ⟨fun t hb => served_or_waits hm hf hok hw1 hw hr hb, fun t hreq => ?_, fun t hs =>
    idle_delays (hok t) hs⟩
  have hwait : Waiting (R.state t) := by
    rcases hm.req_of_busy hok t with h | h | h
    · exact .inl h
    · exact .inr (.inl h)
    · rw [hreq] at h
      cases h
  exact ⟨hwait.noAck (hok t), hwait.strobeHigh (hok t)⟩

end Requests

/-- A word is written from reset on, with the shortest delays and a flash that is always ready. -/
def wordWrite (t : ℕ) : BridgeIn where
  cyc := true
  stb := decide (t ≤ 8)
  access := ⟨0x40, 0b1111, true, 0x11223344⟩
  flashDI := 0
  flashSts := true

def wordWriteRun : (Bridge.machine ⟨1, 1⟩).Run :=
  .ofInput Bridge.init wordWrite rfl (fun _ => trivial)

theorem wordWrite_master : Master wordWriteRun := by
  have hreq : ∀ t, (wordWriteRun.input t).req = decide (t ≤ 8) := fun t => by
    simp [wordWriteRun, Machine.Run.ofInput, wordWrite, BridgeIn.req]
  have hack : ∀ t ≤ 8, (wordWriteRun.state t).wbAckO = decide (t = 8) := by decide
  refine ⟨fun t hr ha => ⟨?_, rfl⟩, fun t hr ha => ?_, fun t _ => List.mem_cons_self⟩
  all_goals
    rw [hreq, decide_eq_true_eq] at hr
    rw [hack t hr] at ha
    rw [hreq]
    simp at ha ⊢
    omega

/-- The two half-words go to 0x20 and 0x21, with the bytes exchanged. -/
theorem accesses_served_word :
    (wordWriteRun.input 0).access.writes = [(0x20, 0x2211), (0x21, 0x4433)] ∧
      ∃ a, Served wordWriteRun (fun _ _ => 0) 0 a := by
  refine ⟨by decide, ?_⟩
  have h := (accesses_served (d := ⟨1, 1⟩) (le_refl 1) (by decide) (by decide) wordWriteRun
    (fun _ _ => 0) wordWrite_master (fun _ _ _ => rfl)).1 0 ⟨by decide, by omega⟩
  rcases h with h | h
  · exact h
  · have hreset := (h.busy 1 (Nat.zero_le 1) rfl).1
    exact absurd hreset (by decide)

/-- A read of a flash that is ready after reset and then busy for ever. -/
def busyRead (t : ℕ) : BridgeIn where
  cyc := true
  stb := decide (1 ≤ t)
  access := ⟨0x40, 0b1111, false, 0⟩
  flashDI := 0
  flashSts := decide (t = 0)

def busyReadRun : (Bridge.machine ⟨1, 1⟩).Run :=
  .ofInput Bridge.init busyRead rfl (fun _ => trivial)

theorem busyRead_req (t : ℕ) : (busyReadRun.input t).req = decide (1 ≤ t) := by
  simp [busyReadRun, Machine.Run.ofInput, busyRead, BridgeIn.req]

theorem busyRead_check (t : ℕ) : (busyReadRun.state (t + 2)).state = .check := by
  induction t with
  | zero => decide
  | succ t ih =>
    have hsts : (busyReadRun.input (t + 2)).flashSts = false := rfl
    rw [state_succ]
    simp [Bridge.clk, ih, hsts]

theorem busyRead_noAck (t : ℕ) : (busyReadRun.state t).wbAckO = false := by
  match t with
  | 0 => rfl
  | 1 => rfl
  | t + 2 =>
    exact no_ack (Bridge.ok_of_run busyReadRun (by decide) (by decide) _)
      (by simp [busyRead_check]) (by simp [busyRead_check])

/-- The request of a master that keeps the rules is never acknowledged. -/
theorem busy_flash_not_served :
    Master busyReadRun ∧ Answers busyReadRun (fun _ _ => 0) ∧ Begins busyReadRun 1 ∧
      ¬ ∃ a, Served busyReadRun (fun _ _ => 0) 1 a := by
  refine ⟨⟨fun t hr _ => ⟨?_, rfl⟩, fun t _ ha => ?_, fun t _ => List.mem_cons_self⟩,
    fun _ _ _ => rfl, ⟨by decide, fun u hu => ?_⟩, ?_⟩
  · rw [busyRead_req]
    exact decide_eq_true (by omega)
  · rw [busyRead_noAck] at ha
    cases ha
  · obtain rfl : u = 0 := by omega
    decide
  · rintro ⟨a, ha⟩
    exact Bool.false_ne_true ((busyRead_noAck a).symm.trans ha.ack)

end DsdOrsoc.FlashIf
