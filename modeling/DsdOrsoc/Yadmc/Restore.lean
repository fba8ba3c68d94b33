import DsdOrsoc.Yadmc.LineTransfer

/-! Whole evictions and refills in a run of the controller between its memories.

        PRECHARGE_BEFORE_WRITE ... WRITEBURST   copies a line into the chip
        PRECHARGE_BEFORE_READ ... READBURST     copies a line into the cache RAMs

    Two lines never share a location of the chip, so a line stays in the chip as it was evicted
    until the next write burst to it, and a refill brings its sixteen bytes back. -/

namespace DsdOrsoc.Yadmc.Transfer
open Schemes Legality

/-! ### The location of a line -/

theorem columnOf_add (a : LineAdr) (k : BitVec 3) :
    columnOf a + k.setWidth 9 = a.extractLsb' 2 6 ++ k := by
  apply BitVec.eq_of_toNat_eq
  have hk := k.isLt
  have ha := (a.extractLsb' 2 6).isLt
  rw [columnOf, BitVec.toNat_add, BitVec.toNat_append, BitVec.toNat_append,
    ← Nat.shiftLeft_add_eq_or_of_lt hk]
  simp only [BitVec.toNat_setWidth, BitVec.toNat_ofNat, Nat.zero_mod, Nat.or_zero, Nat.shiftLeft_eq]
  omega

theorem line_ext {a a' : LineAdr} (hb : bankOf a = bankOf a') (hr : rowOf a = rowOf a')
    (hc : a.extractLsb' 2 6 = a'.extractLsb' 2 6) : a = a' := by
  refine slice_ext (v := 13) (w := 8) hr ?_
  refine slice_ext (v := 6) (w := 2) ?_ ?_
  · rw [BitVec.extractLsb'_extractLsb'_of_le (by decide),
      BitVec.extractLsb'_extractLsb'_of_le (by decide)]
    exact hc
  · rw [BitVec.extractLsb'_extractLsb'_of_le (by decide),
      BitVec.extractLsb'_extractLsb'_of_le (by decide)]
    exact hb

theorem location_injective :
    Function.Injective fun a : LineAdr => (rowOf a, bankOf a, columnOf a) := by
  intro a a' h
  simp only [Prod.mk.injEq] at h
  obtain ⟨hr, hb, hc⟩ := h
  exact line_ext hb hr (append_inj.1 hc).1

/-! ### Bytes of half-words -/

theorem lanes_low (f : Lane → Byte) : (lanes f).extractLsb' 0 16 = f 1 ++ f 0 :=
  BitVec.extractLsb'_append_eq_right

theorem lanes_high (f : Lane → Byte) : (lanes f).extractLsb' 16 16 = f 3 ++ f 2 :=
  BitVec.extractLsb'_append_eq_left

theorem cacheHalf_low (f : Content) (index : BitVec 9) (w : BitVec 2) :
    cacheHalf f index (w ++ 1#1) = f 1 (cacheAdr index w) ++ f 0 (cacheAdr index w) := by
  have h0 : (w ++ 1#1)[0] = true := by revert w; decide
  have h1 : (w ++ 1#1).extractLsb' 1 2 = w := BitVec.extractLsb'_append_eq_left
  rw [cacheHalf, h0, if_pos rfl, lanes_low, h1]

theorem cacheHalf_high (f : Content) (index : BitVec 9) (w : BitVec 2) :
    cacheHalf f index (w ++ 0#1) = f 3 (cacheAdr index w) ++ f 2 (cacheAdr index w) := by
  have h0 : (w ++ 0#1)[0] = false := by revert w; decide
  have h1 : (w ++ 0#1).extractLsb' 1 2 = w := BitVec.extractLsb'_append_eq_left
  rw [cacheHalf, h0, if_neg (by simp), lanes_high, h1]

/-- The eight half-words determine the sixteen bytes. -/
theorem bytes_of_halves {f g : Content} {index : BitVec 9}
    (h : ∀ k, cacheHalf f index k = cacheHalf g index k) (l : Lane) (w : BitVec 2) :
    f l (cacheAdr index w) = g l (cacheAdr index w) := by
  have hl := h (w ++ 1#1)
  have hh := h (w ++ 0#1)
  rw [cacheHalf_low, cacheHalf_low, append_inj] at hl
  rw [cacheHalf_high, cacheHalf_high, append_inj] at hh
  fin_cases l
  exacts [hl.2, hl.1, hh.2, hh.1]

theorem half_cases (k : BitVec 3) : ∃ w : BitVec 2, k = w ++ 1#1 ∨ k = w ++ 0#1 := by
  refine ⟨k.extractLsb' 1 2, ?_⟩
  revert k
  decide

/-- All eight beats of a refill make up the line. -/
theorem cacheHalf_fillBeats (f : Content) (a : LineAdr) (d : BitVec 3 → BitVec 16) (k : BitVec 3) :
    cacheHalf (fillBeats f a d 8) (lineIndex a) k = d k := by
  have hbyte : ∀ (l : Lane) (w : BitVec 2), fillBeats f a d 8 l (cacheAdr (lineIndex a) w) =
      laneByte (d (halfOf w l) ++ d (halfOf w l)) l := by
    intro l w
    have h1 : (cacheAdr (lineIndex a) w).extractLsb' 2 9 = lineIndex a :=
      BitVec.extractLsb'_append_eq_left
    have h2 : (cacheAdr (lineIndex a) w).extractLsb' 0 2 = w := BitVec.extractLsb'_append_eq_right
    rw [fillBeats, h1, h2, if_pos ⟨rfl, (halfOf w l).isLt⟩]
  have hglue : ∀ x : BitVec 16, laneByte (x ++ x) 1 ++ laneByte (x ++ x) 0 = x ∧
      laneByte (x ++ x) 3 ++ laneByte (x ++ x) 2 = x := by
    intro x
    constructor
    · calc laneByte (x ++ x) 1 ++ laneByte (x ++ x) 0
          = (x ++ x).extractLsb' 0 16 := BitVec.extractLsb'_append_extractLsb'_eq_extractLsb' rfl
        _ = x := BitVec.extractLsb'_append_eq_right
    · calc laneByte (x ++ x) 3 ++ laneByte (x ++ x) 2
          = (x ++ x).extractLsb' 16 16 := BitVec.extractLsb'_append_extractLsb'_eq_extractLsb' rfl
        _ = x := BitVec.extractLsb'_append_eq_left
  obtain ⟨w, rfl | rfl⟩ := half_cases k
  · rw [cacheHalf_low, hbyte, hbyte]
    exact (hglue _).1
  · rw [cacheHalf_high, hbyte, hbyte]
    exact (hglue _).2

/-! ### Lines at rest -/

/-- The states after initialization. -/
def Booted (s : System) : Prop :=
  s.core.state ≠ .reset ∧ s.core.state ≠ .initPrechargeall ∧ s.core.state ≠ .initAutorefresh1 ∧
    s.core.state ≠ .initAutorefresh2 ∧ s.core.state ≠ .initLoadmode

/-- A write burst of line `e` is under way. -/
def WritesLine (s : System) (e : LineAdr) : Prop :=
  s.core.state = .writeburst ∧ ∃ r, s.ctl.busy = some (e, r)

section Rest

variable {s : System} {i : ClkIn}

theorem booted_clk (h : Booted s) : Booted (s.clk i) := by
  obtain ⟨h1, h2, h3, h4, h5⟩ := h
  rw [Booted, core_clk, Sdram16.clk]
  fun_cases Sdram16.out s.core (s.sdramIn i) <;> simp_all

/-- A beat of another line's burst. -/
theorem Writing.chipHalf_keep {a e : LineAdr} {k : ℕ} (hw : Writing s e k) (hne : e ≠ a) :
    chipHalf (s.clk i).chip.mem a = chipHalf s.chip.mem a := by
  funext j
  rw [chipHalf, chipHalf, chip_clk hw.ckeZ, hw.burst]
  simp only [Chip.memAfter, hw.dqm, column_line, Bool.not_false, Bool.and_true, if_true]
  rw [if_neg]
  rintro ⟨hb, hr, hc⟩
  exact hne (line_ext hb hr (append_inj.1 hc).1).symm

/-- STEP: a line in the chip stays as it is while no write burst of it is under way. -/
theorem chipHalf_clk {a : LineAdr} (hi : Inv s) (hb : Booted s) (hn : ¬ WritesLine s a) :
    chipHalf (s.clk i).chip.mem a = chipHalf s.chip.mem a := by
  obtain ⟨h1, h2, h3, h4, h5⟩ := hb
  have hp := hi.chip
  rw [ChipPhase] at hp
  cases hst : s.core.state <;> rw [hst] at hp <;> try contradiction
  case autorefresh =>
    rcases hp with ⟨hc, hz, -⟩ | ⟨hp, -⟩
    · rw [chip_clk hz, hc]
      rfl
    · rw [hp.chip]
  case waitRefresh => rw [hp.1.chip]
  case writeburst =>
    obtain ⟨e, r, k, hbusy, hw⟩ := hp
    refine hw.chipHalf_keep fun h => hn ⟨hst, r, ?_⟩
    rw [hbusy, h]
  case readreg1 | readreg2 | readreg3 | readfirst =>
    obtain ⟨e, r, -, hr⟩ := hp
    rw [hr.mem]
  case readburst =>
    obtain ⟨e, r, k, -, -, -, hr⟩ := hp
    rw [hr.mem]
  all_goals rw [Calm.mem hp]

end Rest

/-! ### Runs -/

section Run

variable {R : machine.Run} {e r : LineAdr} {t n : ℕ}

theorem Run.inv (R : machine.Run) (t : ℕ) : Inv (R.state t) := inv_reachable (R.reachable t)

/-- While a command is outstanding every edge is one of sdram_clk. -/
theorem Run.clk_of_busy (hb : (R.state t).ctl.busy = some (e, r)) :
    ∃ i, R.state (t + 1) = (R.state t).clk i ∧ (R.state t).ctl.legal ((R.state t).sdramIn i) := by
  have hl := R.legal t
  have hn := R.next t
  cases hi : R.input t with
  | clk i =>
    rw [hi] at hl hn
    exact ⟨i, hn, hl⟩
  | host f =>
    rw [hi] at hl
    rw [show (R.state t).ctl.busy = none from hl] at hb
    cases hb

/-- RUN: a line in the chip stays as it is until a write burst of it. -/
theorem Run.chipHalf_keep {a : LineAdr} (hb : Booted (R.state n)) (h : n ≤ t)
    (hn : ∀ u, n ≤ u → u < t → ¬ WritesLine (R.state u) a) :
    Booted (R.state t) ∧ chipHalf (R.state t).chip.mem a = chipHalf (R.state n).chip.mem a := by
  induction t, h using Nat.le_induction with
  | base => exact ⟨hb, rfl⟩
  | succ t h ih =>
    obtain ⟨hbt, hm⟩ := ih fun u h1 h2 => hn u h1 (by omega)
    rw [R.next]
    cases R.input t with
    | host f => exact ⟨hbt, hm⟩
    | clk i =>
      exact ⟨booted_clk hbt, (chipHalf_clk (Run.inv R t) hbt (hn t h (by omega))).trans hm⟩

/-- RUN: a part of a command that lowers the rank in every cycle comes to its end. -/
theorem Run.part_ends {P Q : System → Prop}
    (hbusy : ∀ {s}, P s → s.ctl.busy = some (e, r))
    (hstep : ∀ {s i}, Inv s → P s → s.ctl.legal (s.sdramIn i) →
      Q (s.clk i) ∨ (P (s.clk i) ∧ serveRank (s.clk i).core < serveRank s.core))
    (h : P (R.state t)) :
    ∃ n, t < n ∧ (∀ u, t ≤ u → u < n → (R.state u).ctl.busy = some (e, r)) ∧ Q (R.state n) := by
  obtain ⟨n, htn, hQ, hP⟩ := phase_ends (P := fun u => P (R.state u))
    (Q := fun u => Q (R.state u)) (fun u => serveRank (R.state u).core) (fun u hu => by
      obtain ⟨i, hn, hl⟩ := Run.clk_of_busy (hbusy hu)
      rw [hn]
      exact hstep (Run.inv R u) hu hl) h
  exact ⟨n, htn, fun u h1 h2 => hbusy (hP u h1 h2), hQ⟩

/-- RUN: an eviction ends, in front of the refill. -/
theorem Run.evict_ends (hst : (R.state t).core.state = .prechargeBeforeWrite)
    (hb : (R.state t).ctl.busy = some (e, r)) :
    ∃ n, t < n ∧ (∀ u, t ≤ u → u < n → (R.state u).ctl.busy = some (e, r)) ∧
      Evicted (R.state t).chip.mem (R.state t).content (R.state t).writes e r (R.state n) := by
  obtain ⟨e', r', hb', hm⟩ := (Run.inv R t).evict hst
  rw [hb] at hb'
  cases hb'
  exact Run.part_ends Evicting.busy Evicting.step ⟨hb, hm, rfl, rfl, .inl ⟨hst, rfl⟩⟩

/-- RUN: a refill ends. -/
theorem Run.refill_ends (hst : (R.state t).core.state = .prechargeBeforeRead)
    (hb : (R.state t).ctl.busy = some (e, r)) :
    ∃ n, t < n ∧ (∀ u, t ≤ u → u < n → (R.state u).ctl.busy = some (e, r)) ∧
      Refilled (R.state t).chip.mem (R.state t).content (R.state t).writes r (R.state n) := by
  obtain ⟨e', r', hb', hm⟩ := (Run.inv R t).refill hst
  rw [hb] at hb'
  cases hb'
  exact Run.part_ends Refilling.busy Refilling.step ⟨hb, hm, rfl, .inl ⟨.inl hst, rfl, rfl⟩⟩

end Run

/-! ### What a command moves -/

/-- Between `s` and `s'` line `e` was copied from the cache RAMs into the chip: half-word `k` went
    to column `k` of the line, and no other location of the chip and no cache word was touched. -/
structure LineEvicted (s s' : System) (e : LineAdr) : Prop where
  halves : ∀ k : BitVec 3, s'.chip.mem (bankOf e) (rowOf e) (columnOf e + k.setWidth 9) =
    cacheHalf s.content (lineIndex e) k
  elsewhere : ∀ b r c,
    (∀ k : BitVec 3, (b, r, c) ≠ (bankOf e, rowOf e, columnOf e + k.setWidth 9)) →
    s'.chip.mem b r c = s.chip.mem b r c
  content : s'.content = s.content
  writes : s'.writes = s.writes

/-- Between `s` and `s'` line `r` was copied from the chip into the cache RAMs: each of its sixteen
    bytes was written once, and no other cache word and no location of the chip was touched. -/
structure LineRefilled (s s' : System) (r : LineAdr) : Prop where
  halves : ∀ k : BitVec 3, cacheHalf s'.content (lineIndex r) k =
    s.chip.mem (bankOf r) (rowOf r) (columnOf r + k.setWidth 9)
  once : ∀ w l, s'.writes (cacheAdr (lineIndex r) w) l =
    s.writes (cacheAdr (lineIndex r) w) l + 1
  elsewhere : ∀ index w l, index ≠ lineIndex r →
    s'.content l (cacheAdr index w) = s.content l (cacheAdr index w) ∧
    s'.writes (cacheAdr index w) l = s.writes (cacheAdr index w) l
  chip : s'.chip.mem = s.chip.mem

/-- The command with addresses `e` and `r` is outstanding from cycle `t` up to cycle `n`. -/
def Outstanding (R : machine.Run) (t n : ℕ) (e r : LineAdr) : Prop :=
  t < n ∧ ∀ u, t ≤ u → u < n → (R.state u).ctl.busy = some (e, r)

theorem Evicted.chipHalf {M : Bank → Row → Column → BitVec 16} {F : Content}
    {W : BitVec 11 → Lane → ℕ} {e r : LineAdr} {s : System} (h : Evicted M F W e r s)
    (k : BitVec 3) : chipHalf s.chip.mem e k = cacheHalf F (lineIndex e) k := by
  have h1 : (e.extractLsb' 2 6 ++ k).extractLsb' 3 6 = e.extractLsb' 2 6 :=
    BitVec.extractLsb'_append_eq_left
  have h2 : (e.extractLsb' 2 6 ++ k).extractLsb' 0 3 = k := BitVec.extractLsb'_append_eq_right
  rw [Transfer.chipHalf, h.mem, writeBeats, h1, h2, if_pos ⟨rfl, rfl, rfl, k.isLt⟩]

theorem Evicted.line {s s' : System} {e r : LineAdr}
    (h : Evicted s.chip.mem s.content s.writes e r s') : LineEvicted s s' e := by
  refine ⟨fun k => ?_, fun b r' c hne => ?_, h.content, h.writes⟩
  · rw [columnOf_add]
    exact h.chipHalf k
  · rw [h.mem, writeBeats, if_neg]
    rintro ⟨rfl, rfl, hc, -⟩
    refine hne (c.extractLsb' 0 3) ?_
    rw [columnOf_add, ← hc, BitVec.extractLsb'_append_extractLsb' (w := 6)]

theorem Refilled.line {s s' : System} {r : LineAdr}
    (h : Refilled s.chip.mem s.content s.writes r s') : LineRefilled s s' r := by
  have hi : ∀ index w, (cacheAdr index w).extractLsb' 2 9 = index :=
    fun _ _ => BitVec.extractLsb'_append_eq_left
  refine ⟨fun k => ?_, fun w l => ?_, fun index w l hne => ⟨?_, ?_⟩, h.mem⟩
  · rw [h.content, cacheHalf_fillBeats, columnOf_add]
    rfl
  · rw [h.writes, countBeats, hi, if_pos ⟨rfl, BitVec.isLt _⟩]
  · rw [h.content, fillBeats, hi, if_neg fun h' => hne h'.1]
  · rw [h.writes, countBeats, hi, if_neg fun h' => hne h'.1, Nat.add_zero]

/-- In every run: lines have locations of their own in the chip; an eviction copies its line into
    the chip and nothing else; a refill copies its line into the cache RAMs and nothing else; and
    refilling an evicted line, with no write burst of it in between, restores all of its bytes. -/
theorem transfers_one_line (R : machine.Run) :
    (Function.Injective fun a : LineAdr => (rowOf a, bankOf a, columnOf a)) ∧
    (∀ t e r, (R.state t).core.state = .prechargeBeforeWrite →
      (R.state t).ctl.busy = some (e, r) →
      ∃ n, Outstanding R t n e r ∧ (R.state n).core.state = .prechargeBeforeRead ∧
        (R.state n).ctl.busy = some (e, r) ∧ LineEvicted (R.state t) (R.state n) e ∧
        ∀ t' e', n ≤ t' → (R.state t').core.state = .prechargeBeforeRead →
          (R.state t').ctl.busy = some (e', e) →
          (∀ u, n ≤ u → u < t' → ¬ WritesLine (R.state u) e) →
          ∃ n', Outstanding R t' n' e' e ∧ (R.state n').core.state = .idle ∧
            (R.state n').ctl.busy = none ∧
            ∀ l w, (R.state n').content l (cacheAdr (lineIndex e) w) =
              (R.state t).content l (cacheAdr (lineIndex e) w)) ∧
    (∀ t e r, (R.state t).core.state = .prechargeBeforeRead →
      (R.state t).ctl.busy = some (e, r) →
      ∃ n, Outstanding R t n e r ∧ (R.state n).core.state = .idle ∧
        (R.state n).ctl.busy = none ∧ LineRefilled (R.state t) (R.state n) r) := by
  refine ⟨location_injective, fun t e r hst hb => ?_, fun t e r hst hb => ?_⟩
  · obtain ⟨n, htn, hout, hev⟩ := Run.evict_ends hst hb
    refine ⟨n, ⟨htn, hout⟩, hev.state, hev.busy, hev.line, fun t' e' hnt hst' hb' hquiet => ?_⟩
    obtain ⟨n', htn', hout', hre⟩ := Run.refill_ends hst' hb'
    refine ⟨n', ⟨htn', hout'⟩, hre.state, hre.busy, bytes_of_halves fun k => ?_⟩
    have hboot : Booted (R.state n) := by simp [Booted, hev.state]
    have hkeep := (Run.chipHalf_keep hboot hnt hquiet).2
    rw [hre.content, cacheHalf_fillBeats, hkeep, hev.chipHalf]
  · obtain ⟨n, htn, hout, hre⟩ := Run.refill_ends hst hb
    exact ⟨n, ⟨htn, hout⟩, hre.state, hre.busy, hre.line⟩

/-- Controller in reset, an idle chip and empty cache RAMs. -/
def atReset : System where
  ctl := Legality.inReset
  chip := ⟨fun _ _ _ => 0, fun _ => none, none, none, none, true⟩
  ram _ := ⟨fun _ => 0, 0, 0⟩
  writes _ _ := 0

/-- An eviction is asked for in cycle 5. -/
def evictInput (t : ℕ) : Edge :=
  .clk { commandEvict := t = 5, commandRefill := false, evictAdr := 0x1234, refillAdr := 0x34
         cfg0 := 0, cfg1 := 0x01000000, float := 0 }

theorem evictInput_busy (t : ℕ) :
    (t ≤ 5 → (machine.trace atReset evictInput t).ctl.busy = none) ∧
    ∀ p ∈ (machine.trace atReset evictInput t).ctl.busy, p = (0x1234, 0x34) := by
  induction t with
  | zero => exact ⟨fun _ => rfl, fun p hp => by cases hp⟩
  | succ t ih =>
    rcases Legality.busy_cases (machine.trace atReset evictInput t).ctl
      ((machine.trace atReset evictInput t).sdramIn _) with h | ⟨ht, h⟩ | h
    · exact ⟨fun _ => h, fun p hp => by cases h.symm.trans hp⟩
    · have h5 : t = 5 := by simpa [System.sdramIn] using ht
      exact ⟨fun h' => by omega, fun p hp => by cases h.symm.trans hp; rfl⟩
    · exact ⟨fun h5 => h.trans (ih.1 (by omega)), fun p hp => ih.2 p (h ▸ hp)⟩

theorem evictInput_legal (t : ℕ) :
    machine.legal (machine.trace atReset evictInput t) (evictInput t) := by
  obtain ⟨h5, hp⟩ := evictInput_busy t
  refine ⟨by simp [System.sdramIn], fun p hb => ?_⟩
  obtain rfl := hp p hb
  refine ⟨?_, rfl, rfl, rfl⟩
  by_contra ht
  have : t = 5 := by simpa [System.sdramIn] using ht
  rw [h5 (by omega)] at hb
  cases hb

/-- The run of that input. -/
def evictRun : machine.Run :=
  Machine.Run.ofInput atReset evictInput ⟨rfl, rfl, rfl, rfl, rfl⟩ evictInput_legal

theorem transfers_one_line_evict :
    (evictRun.state 6).core.state = .prechargeBeforeWrite ∧
    ∃ n, Outstanding evictRun 6 n 0x1234 0x34 ∧
      LineEvicted (evictRun.state 6) (evictRun.state n) 0x1234 := by
  refine ⟨rfl, ?_⟩
  obtain ⟨n, h1, -, -, h2, -⟩ := (transfers_one_line evictRun).2.1 6 0x1234 0x34 rfl rfl
  exact ⟨n, h1, h2⟩

end DsdOrsoc.Yadmc.Transfer
