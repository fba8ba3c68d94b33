import DsdOrsoc.Yadmc.EndToEnd

/-! Writes to the configuration registers of `yadmc`. The registers are selected by
    `wb_adr_i[27:0]`, the cache FSM looks at `wb_adr_i[24:2]` only and knows nothing of them:

        0x0C000000   yadmc_cfg0   and word 0 of the SDRAM
        0x0C000004   yadmc_cfg1   and word 1

    so that the write is stored in memory as well. As long as the registers keep the SDRAM at work
    (the mode word is the one of the chip, the refresh interval is not zero) every read is answered,
    and the write does no harm exactly if it stores what the word already shows and does not keep
    alive the zeros that the cache holds since power-up. -/

namespace DsdOrsoc.Yadmc.Flat
open Schemes

/-- A write to one of the two configuration registers. -/
def configures (r : Wb) : Bool :=
  Crossing.System.cfgWrite ⟨r, true, true⟩ 0xC000000 ||
    Crossing.System.cfgWrite ⟨r, true, true⟩ 0xC000004

/-- An address of the 32 MB of SDRAM, in the slave's window. -/
def ordinary (adr : BitVec 32) : Prop := adr.extractLsb' 25 3 = 0#3

/-- The write `c` after the requests `log` stores what its word shows, and finds its line used or
    zero in the SDRAM. -/
structure Harmless (mem : LineAdr → Line) (log : List Wb) (c : Wb) : Prop where
  same : ∀ l : Lane, c.sel.getLsbD l = true → laneByte c.dat l = expected mem log (address c.adr) l
  used : fate log (cacheIndex (address c.adr)) = none →
    ∀ w l, mem (lineAdr 0#12 (cacheIndex (address c.adr))) w l = 0#8

/-! ### Logs -/

theorem configures_iff {r : Wb} : configures r = true ↔
    (r.adr.extractLsb' 0 28 = 0xC000000 ∨ r.adr.extractLsb' 0 28 = 0xC000004) ∧ r.we = true := by
  simp only [configures, Crossing.System.cfgWrite, Bool.or_eq_true, Bool.and_eq_true,
    decide_eq_true_eq, true_and]
  tauto

/-- The configuration registers lie over words of the first line. -/
theorem configures_tag {r : Wb} (h : configures r = true) :
    cacheTag (address r.adr) = 0#12 ∧ r.we = true := by
  obtain ⟨h, hwe⟩ := configures_iff.1 h
  refine ⟨?_, hwe⟩
  have hslice : cacheTag (address r.adr) = (r.adr.extractLsb' 0 28).extractLsb' 13 12 := by
    apply BitVec.eq_of_getLsbD_eq
    intro k hk
    simp only [cacheTag, address, BitVec.getLsbD_extractLsb']
    grind
  rw [hslice]
  rcases h with h | h <;> rw [h] <;> decide

theorem lastByte_append (K L : List Wb) (a : BitVec 23) (l : Lane) :
    lastByte (K ++ L) a l = (lastByte K a l).or (lastByte L a l) := by
  induction K with
  | nil => rfl
  | cons r K ih =>
    simp only [List.cons_append, lastByte]
    split
    · rfl
    · exact ih

/-- The fate of a line after more requests depends on its fate before them. -/
theorem fate_append {L L' : List Wb} {j : BitVec 9} (h : fate L j = fate L' j) (K : List Wb) :
    fate (K ++ L) j = fate (K ++ L') j := by
  induction K with
  | nil => exact h
  | cons r K ih => simp only [List.cons_append, fate, ih]

theorem powerUpByte_congr {mem : LineAdr → Line} {L L' : List Wb} {a : BitVec 23}
    (h : cacheTag a = 0#12 → fate L (cacheIndex a) = fate L' (cacheIndex a)) (l : Lane) :
    powerUpByte mem L a l = powerUpByte mem L' a l := by
  by_cases h0 : cacheTag a = 0#12
  · simp only [powerUpByte, h h0]
  · rw [powerUpByte, powerUpByte, if_neg (fun h' => h0 h'.1), if_neg (fun h' => h0 h'.1)]

theorem expected_append {mem : LineAdr → Line} (K L : List Wb) (a : BitVec 23) (l : Lane) :
    expected mem (K ++ L) a l =
      (lastByte K a l).getD ((lastByte L a l).getD (powerUpByte mem (K ++ L) a l)) := by
  rw [expected, lastByte_append]
  cases lastByte K a l <;> rfl

/-- A request at another index leaves the fate of a line alone. -/
theorem fate_cons_of_index {r : Wb} {log : List Wb} {j : BitVec 9}
    (h : cacheIndex (address r.adr) ≠ j) : fate (r :: log) j = fate log j := by
  cases hf : fate log j with
  | some b => exact fate_cons_of_some hf
  | none => rw [fate_cons_of_none hf, if_pos h]

theorem fate_append_of_some {L : List Wb} {j : BitVec 9} {b : Bool} (h : fate L j = some b)
    (K : List Wb) : fate (K ++ L) j = some b := by
  induction K with
  | nil => exact h
  | cons r K ih => exact fate_cons_of_some ih

section Config

variable {mem : LineAdr → Line} {L : List Wb} {c : Wb}

/-- A harmless write is not seen later. -/
theorem Harmless.expected_eq (h : Harmless mem L c) (htag : cacheTag (address c.adr) = 0#12)
    (K : List Wb) (a : BitVec 23) (l : Lane) :
    expected mem (K ++ c :: L) a l = expected mem (K ++ L) a l := by
  rw [expected_append, expected_append, lastByte]
  congr 1
  by_cases ha : cacheTag a = 0#12 ∧ cacheIndex a = cacheIndex (address c.adr)
  · cases hf : fate L (cacheIndex (address c.adr)) with
    | none =>
      -- the line is still as at power-up, and so is the SDRAM
      have hzero : ∀ M, powerUpByte mem M a l = 0#8 := by
        intro M
        rw [powerUpByte, ha.1, ha.2, h.used hf, ite_self]
      have hlast := lastByte_of_fate l ha.1 (ha.2 ▸ hf)
      rw [hlast, hzero, hzero]
      split
      · next hw =>
        have hsame := h.same l hw.2.2
        rw [hw.2.1, expected, hlast, hzero] at hsame
        exact hsame
      · rfl
    | some b =>
      have hfate : ∀ M, fate (M ++ L) (cacheIndex a) = some b := fun M =>
        fate_append_of_some (ha.2 ▸ hf) M
      have hp : ∀ M, powerUpByte mem (M ++ L) a l = powerUpByte mem L a l := fun M =>
        powerUpByte_congr (fun _ => (hfate M).trans (hfate []).symm) l
      rw [show K ++ c :: L = (K ++ [c]) ++ L by simp, hp, hp]
      split
      · next hw =>
        have hsame := h.same l hw.2.2
        rw [hw.2.1] at hsame
        exact hsame
      · rfl
  · have hw : ¬ writes c a l := by
      rintro ⟨-, rfl, -⟩
      exact ha ⟨htag, rfl⟩
    rw [if_neg hw]
    congr 1
    refine powerUpByte_congr (fun h0 => fate_append (fate_cons_of_index fun hi => ?_) K) l
    exact ha ⟨h0, hi.symm⟩

/-- The word with an address, as an ordinary byte address. -/
def byteAdr (a : BitVec 23) : BitVec 32 := 0#7 ++ (a ++ 0#2)

theorem address_byteAdr (a : BitVec 23) : address (byteAdr a) = a := by
  rw [address, byteAdr, BitVec.extractLsb'_append_eq_of_add_le (by decide)]
  exact BitVec.extractLsb'_append_eq_left

theorem ordinary_byteAdr (a : BitVec 23) : ordinary (byteAdr a) := by
  rw [ordinary, byteAdr, BitVec.extractLsb'_append_eq_of_le (by decide)]
  decide

/-- `{tag, index, line index}`. -/
def wordAdr (t : BitVec 12) (j : BitVec 9) (w : BitVec 2) : BitVec 23 := t ++ (j ++ w)

theorem cacheTag_wordAdr (t : BitVec 12) (j : BitVec 9) (w : BitVec 2) :
    cacheTag (wordAdr t j w) = t := BitVec.extractLsb'_append_eq_left

theorem cacheIndex_wordAdr (t : BitVec 12) (j : BitVec 9) (w : BitVec 2) :
    cacheIndex (wordAdr t j w) = j := by
  rw [cacheIndex, wordAdr, BitVec.extractLsb'_append_eq_of_add_le (by decide)]
  exact BitVec.extractLsb'_append_eq_left

theorem cacheLindex_wordAdr (t : BitVec 12) (j : BitVec 9) (w : BitVec 2) :
    cacheLindex (wordAdr t j w) = w := by
  rw [cacheLindex, wordAdr, BitVec.extractLsb'_append_eq_of_add_le (by decide)]
  exact BitVec.extractLsb'_append_eq_right

/-- A write that is not seen after any sequence of reads is harmless. -/
theorem harmless_of_expected_eq (htag : cacheTag (address c.adr) = 0#12) (hwe : c.we = true)
    (h : ∀ K : List Wb, (∀ r ∈ K, r.we = false) → ∀ a l,
      expected mem (K ++ c :: L) a l = expected mem (K ++ L) a l) :
    Harmless mem L c := by
  have hsame : ∀ l : Lane, c.sel.getLsbD l = true →
      laneByte c.dat l = expected mem L (address c.adr) l := by
    intro l hl
    have := h [] (by simp) (address c.adr) l
    simpa [expected, lastByte, writes, hwe, hl] using this
  refine ⟨hsame, fun hf w l => ?_⟩
  -- a read of another line at the same index drops the zeros, unless the write made them dirty
  let r : Wb := ⟨byteAdr (wordAdr 1#12 (cacheIndex (address c.adr)) 0#2), 0, 0, false⟩
  have hadr : address r.adr = wordAdr 1#12 (cacheIndex (address c.adr)) 0#2 := address_byteAdr _
  let a := wordAdr 0#12 (cacheIndex (address c.adr)) w
  have hta : cacheTag a = 0#12 := cacheTag_wordAdr _ _ _
  have hia : cacheIndex a = cacheIndex (address c.adr) := cacheIndex_wordAdr _ _ _
  have hla : cacheLindex a = w := cacheLindex_wordAdr _ _ _
  have hf' : fate (c :: L) (cacheIndex a) = some true := by
    rw [hia, fate_cons_of_none hf]
    simp [htag, hwe]
  have hfr : fate (r :: L) (cacheIndex a) = some false := by
    rw [hia, fate_cons_of_none hf, hadr, cacheIndex_wordAdr, cacheTag_wordAdr]
    simp
  have hlast : lastByte L a l = none := lastByte_of_fate l hta (hia ▸ hf)
  have hwith : expected mem ([r] ++ c :: L) a l = 0#8 := by
    have hp : powerUpByte mem (r :: c :: L) a l = 0#8 := by
      rw [powerUpByte, fate_cons_of_some hf', if_pos ⟨hta, by simp⟩]
    have hzero : expected mem L a l = 0#8 := by
      rw [expected, hlast, powerUpByte, hia, hf, if_pos ⟨hta, by simp⟩]
      rfl
    rw [List.singleton_append, expected, hp, lastByte, if_neg (by simp [writes, r]), lastByte]
    split
    · next hw =>
      have := hsame l hw.2.2
      rw [hw.2.1, hzero] at this
      exact this
    · rw [hlast]
      rfl
  have hwithout : expected mem ([r] ++ L) a l =
      mem (lineAdr 0#12 (cacheIndex (address c.adr))) w l := by
    rw [List.singleton_append, expected, lastByte, if_neg (by simp [writes, r]), hlast, powerUpByte,
      hfr, if_neg (by simp), hta, hia, hla]
    rfl
  rw [← hwithout, ← h [r] (by simp [r]) a l, hwith]

end Config

end DsdOrsoc.Yadmc.Flat

namespace DsdOrsoc.Yadmc.EndToEnd
open Schemes Crossing
open Flat (configures configures_tag ordinary expected Harmless harmless_of_expected_eq)
open Flat (byteAdr address_byteAdr ordinary_byteAdr)

/-- A request leaves the SDRAM at work: the mode word it writes to `yadmc_cfg0` is the one of the
    chip, the refresh interval it writes to `yadmc_cfg1` is not zero. -/
def Admissible (r : Wb) : Prop :=
  (Crossing.System.cfgWrite ⟨r, true, true⟩ 0xC000000 = true →
    r.dat.extractLsb' 0 13 = 0x023) ∧
  (Crossing.System.cfgWrite ⟨r, true, true⟩ 0xC000004 = true → r.dat.extractLsb' 16 16 ≠ 0)

/-- The assembly under admissible requests. -/
def configured (mem : Bank → Row → Column → BitVec 16) : Machine System Edge where
  start := (machine mem).start
  legal s e := s.legal e ∧
    ∀ b, e.bus = some b → (b.cyc && b.stb) = true → Admissible b.wb
  step := System.step

section Runs

variable {mem : Bank → Row → Column → BitVec 16}

/-- Both clocks go on. -/
structure Clocked (R : (configured mem).Run) : Prop where
  sys : ∀ t, ∃ n, t ≤ n ∧ (R.input n).bus.isSome = true
  sdram : ∀ t, ∃ n, t ≤ n ∧ (R.input n).dq.isSome = true

/-- After the acknowledged requests `log`, a read of `adr` comes on the bus in cycle `t`. -/
structure Reads (R : (configured mem).Run) (log : List Wb) (adr : BitVec 32) (t : ℕ) (b : Bus) :
    Prop where
  free : (R.state t).req = none
  log : (R.state t).log = log
  bus : (R.input t).bus = some b
  start : (b.cyc && b.stb) = true
  read : b.wb.we = false
  adr : b.wb.adr = adr

/-- After the acknowledged requests `log` a read of `adr` can be made, and in every run with both
    clocks the next acknowledge is for it and comes with `v` on the data lines. -/
structure Answers (mem : Bank → Row → Column → BitVec 16) (log : List Wb) (adr : BitVec 32)
    (v : Lane → Byte) : Prop where
  made : ∃ R : (configured mem).Run, Clocked R ∧ ∃ t b, Reads R log adr t b
  answered : ∀ R : (configured mem).Run, Clocked R → ∀ t b, Reads R log adr t b →
    ∃ n b', t ≤ n ∧ (R.input n).bus = some b' ∧ b'.wb = b.wb ∧ (R.state n).wbAckO b' = true ∧
      (R.state n).log = log ∧ (R.state n).cross.cache.wbDatO = v

theorem admissible_of_read {r : Wb} (h : r.we = false) : Admissible r := by
  simp [Admissible, Crossing.System.cfgWrite, h]

/-- Admissible requests are requests of the assembly. -/
theorem reachable_configured {s : System} (hs : (configured mem).Reachable s) :
    (machine mem).Reachable s := by
  induction hs with
  | start h => exact .start h
  | step _ hl ih => exact .step ih hl.1

/-- A run under admissible requests, as a run of the assembly. -/
def Run.assembly (R : (configured mem).Run) : (machine mem).Run where
  state := R.state
  input := R.input
  start := R.start
  legal t := (R.legal t).1
  next := R.next

/-- The refresh interval is not zero at reset, and no admissible request makes it so. -/
theorem refreshInterval_ne {s : System} (hs : (configured mem).Reachable s) :
    refreshInterval s.cross ≠ 0 := by
  refine Machine.Reachable.invariant (M := configured mem)
    (I := fun s => refreshInterval s.cross ≠ 0) (fun s h => ?_) (fun s e h hl => ?_) hs
  · obtain ⟨⟨-, -, -, -, -, -, -, -, h1, -⟩, -⟩ := h
    rw [refreshInterval, h1]
    decide
  · change (((s.wired e).bus.elim s.cross.cfg1 fun b =>
      if Crossing.System.cfgWrite b 0xC000004 then b.wb.dat
      else s.cross.cfg1).extractLsb' 16 16) ≠ 0
    rw [wired_bus]
    cases hb : e.bus with
    | none => exact h
    | some b =>
      simp only [Option.elim]
      split
      · next hw =>
        simp only [Crossing.System.cfgWrite, Bool.and_eq_true, decide_eq_true_eq] at hw
        obtain ⟨⟨⟨hc, ht⟩, ha⟩, hwe⟩ := hw
        refine (hl.2 b hb (by rw [hc, ht]; rfl)).2 ?_
        simp [Crossing.System.cfgWrite, ha, hwe]
      · exact h

theorem Run.lively {R : (configured mem).Run} (h : Clocked R) : Lively (Run.assembly R) :=
  ⟨h.sys, h.sdram, fun t => refreshInterval_ne (R.reachable t)⟩

/-! ### Every request can be made -/

/-- The two clocks in turn, with a request on the bus. -/
def held (r : Wb) (t : ℕ) : Edge := if t % 2 = 0 then .sys ⟨r, true, true⟩ else .sdram 0

theorem held_bus {r : Wb} {t : ℕ} {b : Bus} (h : (held r t).bus = some b) :
    b = ⟨r, true, true⟩ := by
  rw [held] at h
  split at h <;> cases h
  rfl

/-- STEP: with one request on the bus no other is in progress. -/
theorem step_held {s : System} {r : Wb} (t : ℕ) (h : ∀ x, s.req = some x → x = r) :
    ∀ x, (s.step (held r t)).req = some x → x = r := by
  intro x hx
  cases hb : (held r t).bus with
  | none => exact h x (by simpa [System.step, hb] using hx)
  | some b =>
    obtain rfl := held_bus hb
    simp only [System.step, hb, Option.elim] at hx
    split at hx
    · cases hx
    · split at hx
      · exact (Option.some.inj hx).symm
      · exact h x hx

theorem trace_held {s : System} {r : Wb} (h : s.req = none) (t : ℕ) :
    ∀ x, ((configured mem).trace s (held r) t).req = some x → x = r := by
  induction t with
  | zero =>
    intro x hx
    cases h.symm.trans hx
  | succ t ih => exact step_held t ih

theorem held_legal {s : System} {r : Wb} (h : s.req = none) (hr : Admissible r) (t : ℕ) :
    (configured mem).legal ((configured mem).trace s (held r) t) (held r t) := by
  refine ⟨fun b hb => ?_, fun b hb _ => ?_⟩
  · obtain rfl := held_bus hb
    exact ⟨fun x hx => (trace_held h t x hx).symm, hr.1⟩
  · obtain rfl := held_bus hb
    exact hr

/-- From a reachable state without a request, any admissible request can come on the bus. -/
theorem exists_run_held {s : System} (hs : (configured mem).Reachable s) (hreq : s.req = none)
    {r : Wb} (hr : Admissible r) : ∃ R : (configured mem).Run, Clocked R ∧
      ∃ t, R.state t = s ∧ (R.input t).bus = some ⟨r, true, true⟩ := by
  obtain ⟨R, n, hR⟩ := hs.exists_run (held r) (held_legal hreq hr)
  refine ⟨R, ⟨fun t => ⟨n + 2 * t, by omega, ?_⟩, fun t => ⟨n + (2 * t + 1), by omega, ?_⟩⟩, n,
    (hR 0).1, ?_⟩
  · rw [(hR _).2]
    simp [held, Edge.bus]
  · rw [(hR _).2]
    simp [held, Edge.dq, Nat.add_mod]
  · exact congrArg Edge.bus (hR 0).2

/-- RUN: any sequence of admissible requests can follow. -/
theorem realised {s : System} (hs : (configured mem).Reachable s) (hreq : s.req = none) :
    ∀ K : List Wb, (∀ r ∈ K, Admissible r) →
    ∃ s', (configured mem).Reachable s' ∧ s'.log = K ++ s.log ∧ s'.req = none
  | [], _ => ⟨s, hs, rfl, hreq⟩
  | r :: K, hK => by
    obtain ⟨s1, hs1, hlog1, hreq1⟩ := realised hs hreq K fun x hx => hK x (.tail _ hx)
    obtain ⟨R, hR, t, rfl, hb⟩ := exists_run_held hs1 hreq1 (hK r (.head _))
    obtain ⟨n, b, -, hbn, hwb, hack, hlog⟩ := Run.bus_acks (Run.lively hR) hb rfl
    obtain ⟨hnone, hnext⟩ := Run.acked_next (R := Run.assembly R) hbn hack
    refine ⟨R.state (n + 1), R.reachable _, ?_, hnone⟩
    calc (R.state (n + 1)).log = b.wb :: (R.state n).log := hnext
      _ = r :: (R.state t).log := by rw [hwb]; exact congrArg _ hlog
      _ = r :: (K ++ s.log) := by rw [hlog1]

/-- After any sequence of admissible requests a read is answered, with the expected word and no
    other. -/
theorem answers_iff {s : System} (hs : (configured mem).Reachable s) (hreq : s.req = none)
    {K : List Wb} (hK : ∀ r ∈ K, Admissible r) (adr : BitVec 32) (v : Lane → Byte) :
    Answers mem (K ++ s.log) adr v ↔ v = expected (lineIn mem) (K ++ s.log) (address adr) := by
  have hmade : ∃ R : (configured mem).Run, Clocked R ∧ ∃ t b, Reads R (K ++ s.log) adr t b := by
    obtain ⟨s1, hs1, hlog1, hreq1⟩ := realised hs hreq K hK
    obtain ⟨R, hR, t, rfl, hb⟩ :=
      exists_run_held hs1 hreq1 (admissible_of_read (r := ⟨adr, 0, 0xF, false⟩) rfl)
    exact ⟨R, hR, t, _, hreq1, hlog1, hb, rfl, rfl, rfl⟩
  have hword : ∀ (R : (configured mem).Run) {t n : ℕ} {b b' : Bus},
      Reads R (K ++ s.log) adr t b → (R.input n).bus = some b' → b'.wb = b.wb →
      (R.state n).wbAckO b' = true → (R.state n).log = K ++ s.log →
      (R.state n).cross.cache.wbDatO = expected (lineIn mem) (K ++ s.log) (address adr) := by
    intro R t n b b' hread hb' hwb hack hlog
    funext l
    rw [ack_expected (reachable_configured (R.reachable n)) (R.legal n).1 hb' hack l, hlog, hwb,
      hread.adr]
  constructor
  · rintro ⟨⟨R, hR, t, b, hread⟩, hall⟩
    obtain ⟨n, b', -, hb', hwb, hack, hlog, rfl⟩ := hall R hR t b hread
    exact hword R hread hb' hwb hack hlog
  · rintro rfl
    refine ⟨hmade, fun R hR t b hread => ?_⟩
    obtain ⟨n, b', htn, hb', hwb, hack, hlog⟩ := Run.bus_acks (Run.lively hR) hread.bus hread.start
    have hlog' : (R.state n).log = K ++ s.log := hlog.trans hread.log
    exact ⟨n, b', htn, hb', hwb, hack, hlog', hword R hread hb' hwb hack hlog'⟩

end Runs

/-- While the registers keep the SDRAM at work, a write to one of them is invisible to all later
    reads of the SDRAM exactly if it is harmless: it stores what its word shows, in a line that has
    been used or is zero in the SDRAM too. Invisible means that a read of any ordinary address,
    after any further requests, is answered with the same word with the write and without it. -/
theorem config_write_invisible_iff (mem : Bank → Row → Column → BitVec 16) {s : System}
    (hs : (configured mem).Reachable s) (hreq : s.req = none) {c : Wb} (hc : configures c = true)
    (hadm : Admissible c) :
    (∀ K : List Wb, (∀ r ∈ K, Admissible r) → ∀ adr, ordinary adr →
      ∃ v, Answers mem (K ++ c :: s.log) adr v ∧ Answers mem (K ++ s.log) adr v) ↔
    Harmless (lineIn mem) s.log c := by
  obtain ⟨htag, hwe⟩ := configures_tag hc
  obtain ⟨s', hs', hlog', hreq'⟩ := realised hs hreq [c] (by simpa using hadm)
  have hwith : ∀ {K : List Wb}, (∀ r ∈ K, Admissible r) → ∀ adr v,
      Answers mem (K ++ c :: s.log) adr v ↔
      v = expected (lineIn mem) (K ++ c :: s.log) (address adr) := by
    intro K hK
    have := answers_iff hs' hreq' hK
    rwa [hlog'] at this
  constructor
  · intro h
    refine harmless_of_expected_eq htag hwe fun K hK a l => ?_
    have hK' : ∀ r ∈ K, Admissible r := fun r hr => admissible_of_read (hK r hr)
    obtain ⟨v, h1, h2⟩ := h K hK' (byteAdr a) (ordinary_byteAdr a)
    have heq := ((hwith hK' _ _).1 h1).symm.trans ((answers_iff hs hreq hK' _ _).1 h2)
    rw [address_byteAdr] at heq
    exact congrFun heq l
  · intro h K hK adr _
    refine ⟨_, (hwith hK adr _).2 rfl, (answers_iff hs hreq hK adr _).2 ?_⟩
    funext l
    exact h.expected_eq htag K _ l

/-- The reset value of `yadmc_cfg0`, written to its register. -/
def cfg0Again : Wb := ⟨0x0C000000, 0x27100023, 0xF, true⟩

theorem cfg0Again_admissible : Admissible cfg0Again := ⟨fun _ => by decide, fun h => by cases h⟩

theorem atReset_reachable : (configured fun _ _ _ => 0).Reachable atReset := .start atReset_start

/-- The same value written to `yadmc_cfg0` a second time. -/
theorem config_write_invisible_again : configures cfg0Again = true ∧ Admissible cfg0Again ∧
    ∀ K : List Wb, (∀ r ∈ K, Admissible r) → ∀ adr, ordinary adr →
      ∃ v, Answers (fun _ _ _ => 0) (K ++ [cfg0Again, cfg0Again]) adr v ∧
        Answers (fun _ _ _ => 0) (K ++ [cfg0Again]) adr v := by
  obtain ⟨s, hs, hlog, hreq⟩ := realised atReset_reachable rfl [cfg0Again]
    (by simpa using cfg0Again_admissible)
  have hc : configures cfg0Again = true := by decide
  have hharm : Harmless (lineIn fun _ _ _ => 0) s.log cfg0Again := by
    rw [hlog]
    refine ⟨?_, fun h => ?_⟩
    · decide
    · exact absurd h (by decide)
  have := (config_write_invisible_iff _ hs hreq hc cfg0Again_admissible).2 hharm
  rw [hlog] at this
  exact ⟨hc, cfg0Again_admissible, this⟩

/-- That value written to its register after power-up: a read of the SDRAM at address zero returns
    it, instead of zero. -/
theorem config_write_stored :
    configures cfg0Again = true ∧ Admissible cfg0Again ∧ ordinary 0 ∧
    Answers (fun _ _ _ => 0) [cfg0Again] 0 (laneByte 0x27100023) ∧
    Answers (fun _ _ _ => 0) [] 0 (fun _ => 0) := by
  refine ⟨by decide, cfg0Again_admissible, rfl, ?_, ?_⟩
  · refine (answers_iff atReset_reachable rfl (K := [cfg0Again])
      (by simpa using cfg0Again_admissible) 0 _).2 ?_
    funext l
    revert l
    decide
  · refine (answers_iff atReset_reachable rfl (K := []) (by simp) 0 _).2 ?_
    funext l
    revert l
    decide

end DsdOrsoc.Yadmc.EndToEnd
