import DsdOrsoc.Schemes.Bits
import DsdOrsoc.Or1200.WbBiu

/-! Boot remapping in `or1200_soc_top`: with `boot_flash` the instruction port of the core reaches
    the flash, at 0xF0000000, until it has used an address there itself. `flash_prefix` looks at the
    address register of the bus interface unit in every cycle, also between transfers. That does no
    harm for two reasons: the unit loads the register only in the cycle before a transfer starts,
    and an address in the flash is its own remapped form, so that nothing moves in the cycle in
    which `flash_prefix` falls:

        wb_adr_o       00000100   F0000104   F0000104   00000108
        flash_prefix       1          1          0          0
        driven         F0000100   F0000104   F0000104   00000108 -/

namespace DsdOrsoc.Top
open Schemes Or1200

/-- The instruction side of the SoC: the bus interface unit and the register of the top module. -/
structure Boot where
  biu : WbBiu
  flashPrefix : Bool

namespace Boot

variable (s : Boot)

/-- `wb_rim_adr_o_flash_prefix`. -/
def rimAdrFlash : BitVec 32 :=
  if s.flashPrefix then 0b1111#4 ++ s.biu.wbAdrO.extractLsb' 0 28 else s.biu.wbAdrO

/-- `mux_to_wb_rim_adr_o`, the address of the master port. -/
def muxToWbRimAdr (bootFlash : Bool) : BitVec 32 :=
  if bootFlash then s.rimAdrFlash else s.biu.wbAdrO

/-- One rising edge of the clock. -/
def clk (i : WbBiuIn) : Boot where
  biu := s.biu.clk i
  flashPrefix := if s.biu.wbAdrO.extractLsb' 28 4 = 0b1111 then false else s.flashPrefix

/-- From reset, with any requests and aborts of the core and any bus. -/
def machine : Machine Boot WbBiuIn where
  start s := s = ⟨WbBiu.reset, true⟩
  legal _ _ := True
  step := clk

end Boot

/-- The address is in the flash: its top nibble is 0xF. -/
def InFlash (adr : BitVec 32) : Prop := adr.extractLsb' 28 4 = 0xF

instance InFlash.decidable (adr : BitVec 32) : Decidable (InFlash adr) :=
  inferInstanceAs (Decidable (_ = _))

/-- An address in the flash is its own remapped form. -/
theorem Boot.rimAdrFlash_of_inFlash {s : Boot} (h : InFlash s.biu.wbAdrO) :
    s.rimAdrFlash = s.biu.wbAdrO := by
  have hself : 0b1111#4 ++ s.biu.wbAdrO.extractLsb' 0 28 = s.biu.wbAdrO :=
    slice_ext (v := 4) (w := 28)
      (BitVec.extractLsb'_append_eq_left.trans h.symm) BitVec.extractLsb'_append_eq_right
  rw [rimAdrFlash, hself, ite_self]

/-- The address register is loaded in the cycle before a transfer starts. -/
theorem clk_adr_or_starts (s : WbBiu) (i : WbBiuIn) :
    (s.clk i).wbAdrO = s.wbAdrO ∨ (s.wbStbO = false ∧ (s.clk i).wbStbO = true) := by
  cases hreq : i.req && !i.wbAckI with
  | false => exact .inl (by simp [WbBiu.clk, hreq])
  | true =>
    cases hs : s.wbStbO with
    | true =>
      have ha : i.wbAckI = false := by simpa using (Bool.and_eq_true_iff.1 hreq).2
      exact .inl (by simp [WbBiu.clk, hs, ha])
    | false => exact .inr ⟨rfl, by simp [WbBiu.clk, hreq]⟩

section Run

variable (R : Boot.machine.Run)

/-- A transfer starts in cycle `t`: the strobe is high, and in the cycle before it was low or the
    transfer before was answered. -/
def Starts (t : ℕ) : Prop :=
  (R.state t).biu.wbStbO = true ∧
    ∀ n, n + 1 = t → (R.state n).biu.wbStbO = false ∨ (R.input n).done = true

/-- The core uses an address in the flash in a transfer that starts in cycle `t` or before. -/
def UsesFlash (t : ℕ) : Prop := ∃ u, u ≤ t ∧ Starts R u ∧ InFlash (R.state u).biu.wbAdrO

variable {R} {t u : ℕ}

theorem boot_succ (R : Boot.machine.Run) (t : ℕ) :
    R.state (t + 1) = (R.state t).clk (R.input t) := R.next t

theorem UsesFlash.mono (h : UsesFlash R t) (htu : t ≤ u) : UsesFlash R u := by
  obtain ⟨v, hv, hs⟩ := h
  exact ⟨v, hv.trans htu, hs⟩

/-- INVARIANT: the registers know about the flash only what transfers have shown. -/
structure Follows (R : Boot.machine.Run) (t : ℕ) : Prop where
  adr : InFlash (R.state t).biu.wbAdrO → UsesFlash R t
  low : (R.state t).flashPrefix = false → UsesFlash R t
  high : (R.state t).flashPrefix = true → ∀ u, u < t → ¬ InFlash (R.state u).biu.wbAdrO

theorem follows_zero : Follows R 0 := by
  have h0 : R.state 0 = ⟨WbBiu.reset, true⟩ := R.start
  refine ⟨?_, ?_, fun _ u hu => absurd hu (Nat.not_lt_zero u)⟩
  · rw [h0]
    exact fun h => absurd h (by decide)
  · rw [h0]
    exact fun h => absurd h (by decide)

/-- STEP. -/
theorem Follows.succ (h : Follows R t) : Follows R (t + 1) := by
  have hbiu : (R.state (t + 1)).biu = (R.state t).biu.clk (R.input t) := by rw [boot_succ]; rfl
  have hpre : (R.state (t + 1)).flashPrefix =
      if InFlash (R.state t).biu.wbAdrO then false else (R.state t).flashPrefix := by
    rw [boot_succ]
    rfl
  refine ⟨fun hf => ?_, fun hlow => ?_, fun hhigh => ?_⟩
  · rcases clk_adr_or_starts (R.state t).biu (R.input t) with hkeep | ⟨hstb, hstb'⟩
    · rw [hbiu, hkeep] at hf
      exact (h.adr hf).mono (Nat.le_succ t)
    · refine ⟨t + 1, le_rfl, ⟨by rwa [hbiu], fun n hn => ?_⟩, hf⟩
      obtain rfl : n = t := by omega
      exact .inl hstb
  · rw [hpre] at hlow
    split at hlow
    · next hf => exact (h.adr hf).mono (Nat.le_succ t)
    · exact (h.low hlow).mono (Nat.le_succ t)
  · rw [hpre] at hhigh
    split at hhigh
    · cases hhigh
    · next hf =>
      intro u hu
      rcases Nat.lt_or_eq_of_le (Nat.le_of_lt_succ hu) with hlt | rfl
      · exact h.high hhigh u hlt
      · exact hf

/-- RUN. -/
theorem follows_run (R : Boot.machine.Run) (t : ℕ) : Follows R t := by
  induction t with
  | zero => exact follows_zero
  | succ t ih => exact ih.succ

/-- An unanswered transfer keeps the address of the master port, whatever `flash_prefix` does. -/
theorem mux_succ (hs : (R.state t).biu.wbStbO = true) (hd : (R.input t).done = false) :
    (R.state (t + 1)).rimAdrFlash = (R.state t).rimAdrFlash := by
  obtain ⟨-, -, hadr⟩ := WbBiu.clk_pending hs hd
  rw [boot_succ]
  by_cases hf : InFlash (R.state t).biu.wbAdrO
  · have hf' : InFlash ((R.state t).clk (R.input t)).biu.wbAdrO := by
      rw [Boot.clk, hadr]
      exact hf
    rw [Boot.rimAdrFlash_of_inFlash hf', Boot.rimAdrFlash_of_inFlash hf]
    exact hadr
  · have hf' : ¬ (R.state t).biu.wbAdrO.extractLsb' 28 4 = 0b1111 := hf
    simp only [Boot.rimAdrFlash, Boot.clk, hadr, if_neg hf']

/-- Boot remapping is consistent: `flash_prefix` never rises; as long as no transfer has used an
    address in the flash, a transfer goes there, with the low 28 bits of its own address, and it has
    its own address from the first one that does; and the address of the master port does not move
    in an unanswered transfer. -/
theorem boot_remapping (R : Boot.machine.Run) :
    (∀ t u, t ≤ u → (R.state t).flashPrefix = false → (R.state u).flashPrefix = false) ∧
    (∀ t, Starts R t → ¬ UsesFlash R t →
      ((R.state t).muxToWbRimAdr true).extractLsb' 28 4 = 0xF ∧
      ((R.state t).muxToWbRimAdr true).extractLsb' 0 28 =
        (R.state t).biu.wbAdrO.extractLsb' 0 28) ∧
    (∀ t, Starts R t → UsesFlash R t →
      (R.state t).muxToWbRimAdr true = (R.state t).biu.wbAdrO) ∧
    (∀ t, (R.state t).biu.wbCycO = true → (R.state t).biu.wbStbO = true →
      (R.input t).done = false →
      (R.state (t + 1)).muxToWbRimAdr true = (R.state t).muxToWbRimAdr true) := by
  refine ⟨fun t u htu hlow => ?_, fun t _ hno => ?_, fun t _ huse => ?_, fun t _ hs hd => ?_⟩
  · induction u, htu using Nat.le_induction with
    | base => exact hlow
    | succ u htu ih =>
      rw [boot_succ, Boot.clk, ih]
      exact ite_self _
  · have hhigh : (R.state t).flashPrefix = true := by
      by_contra hlow
      exact hno ((follows_run R t).low (by simpa using hlow))
    have hadr : (R.state t).muxToWbRimAdr true =
        0b1111#4 ++ (R.state t).biu.wbAdrO.extractLsb' 0 28 := if_pos hhigh
    rw [hadr]
    exact ⟨BitVec.extractLsb'_append_eq_left, BitVec.extractLsb'_append_eq_right⟩
  · change (R.state t).rimAdrFlash = _
    obtain ⟨u, hut, -, hf⟩ := huse
    rcases Nat.lt_or_eq_of_le hut with hlt | rfl
    · have hlow : ¬ (R.state t).flashPrefix = true := fun h => (follows_run R t).high h u hlt hf
      exact if_neg hlow
    · exact Boot.rimAdrFlash_of_inFlash hf
  · exact mux_succ hs hd

/-! The fetches of the table above: 0x100, a jump to 0xF0000104 that waits for one cycle, 0x108. -/

def jumpInput (t : ℕ) : WbBiuIn where
  biuAdrI := if t ≤ 1 then 0x100 else if t ≤ 4 then 0xF0000104 else 0x108
  biuDatI := 0
  biuCycI := true
  biuStbI := true
  biuWeI := false
  biuSelI := 15
  wbAckI := decide (t = 1 ∨ t = 4)
  wbErrI := false

def jumpRun : Boot.machine.Run :=
  .ofInput ⟨WbBiu.reset, true⟩ jumpInput rfl fun _ => trivial

theorem jumpRun_starts : Starts jumpRun 1 ∧ Starts jumpRun 3 ∧ Starts jumpRun 6 := by
  refine ⟨⟨by decide, fun n hn => ?_⟩, ⟨by decide, fun n hn => ?_⟩, by decide, fun n hn => ?_⟩
  · obtain rfl : n = 0 := by omega
    exact .inl (by decide)
  · obtain rfl : n = 2 := by omega
    exact .inl (by decide)
  · obtain rfl : n = 5 := by omega
    exact .inl (by decide)

/-- The first fetch goes to 0xF0000100; `flash_prefix` falls in the second one, whose address stays;
    the third one goes to 0x108. -/
theorem boot_remapping_jump :
    ((jumpRun.state 1).muxToWbRimAdr true).extractLsb' 28 4 = 0xF ∧
    ((jumpRun.state 1).muxToWbRimAdr true).extractLsb' 0 28 = 0x100 ∧
    (jumpRun.state 3).flashPrefix = true ∧ (jumpRun.state 4).flashPrefix = false ∧
    (jumpRun.state 3).muxToWbRimAdr true = 0xF0000104 ∧
    (jumpRun.state 4).muxToWbRimAdr true = 0xF0000104 ∧
    (jumpRun.state 6).muxToWbRimAdr true = 0x108 := by
  obtain ⟨-, hflash, hown, hstay⟩ := boot_remapping jumpRun
  obtain ⟨h1, h3, h6⟩ := jumpRun_starts
  have hno : ¬ UsesFlash jumpRun 1 := by
    rintro ⟨u, hu, -, hf⟩
    interval_cases u
    · exact absurd hf (by decide)
    · exact absurd hf (by decide)
  have huse : UsesFlash jumpRun 3 := ⟨3, le_rfl, h3, by decide⟩
  obtain ⟨htop, hlow⟩ := hflash 1 h1 hno
  have hadr := hown 3 h3 huse
  refine ⟨htop, hlow.trans (by decide), by decide, by decide, hadr.trans (by decide), ?_, ?_⟩
  · rw [hstay 3 (by decide) (by decide) (by decide), hadr]
    decide
  · exact (hown 6 h6 (huse.mono (by omega))).trans (by decide)

end Run

end DsdOrsoc.Top
