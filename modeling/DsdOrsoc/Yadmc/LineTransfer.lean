import DsdOrsoc.Yadmc.Transfer
import DsdOrsoc.Yadmc.Pace

/-! Eviction and refill move exactly one cache line. A line of sixteen bytes is eight half-words,

        word0[31:16], word0[15:0], word1[31:16], ..., word3[15:0],

    in the cache RAMs at `lineIndex a` and in the chip in the eight columns from `columnOf a` on, of
    row `rowOf a` in bank `bankOf a`. In every run an eviction copies them into the chip, a refill
    copies them back, and nothing else is written on either side. -/

namespace DsdOrsoc.Yadmc.Transfer
open Schemes Legality

/-! ### Half-words and bytes -/

/-- Half-word `k` of the line at an index of the cache RAMs. -/
def cacheHalf (f : Content) (index : BitVec 9) (k : BitVec 3) : BitVec 16 :=
  let w := lanes fun l => f l (cacheAdr index (k.extractLsb' 1 2))
  if k[0] then w.extractLsb' 0 16 else w.extractLsb' 16 16

/-- Half-word `k` of a line in the chip. -/
def chipHalf (mem : Bank → Row → Column → BitVec 16) (a : LineAdr) (k : BitVec 3) : BitVec 16 :=
  mem (bankOf a) (rowOf a) (a.extractLsb' 2 6 ++ k)

/-- The half-word that holds byte lane `l` of word `w`. -/
def halfOf (w : BitVec 2) (l : Lane) : BitVec 3 := w ++ (if l.val < 2 then 1#1 else 0#1)

/-- The chip with the first `j` half-words of a line overwritten. -/
def writeBeats (mem : Bank → Row → Column → BitVec 16) (a : LineAdr) (d : BitVec 3 → BitVec 16)
    (j : ℕ) : Bank → Row → Column → BitVec 16 := fun b r c =>
  if b = bankOf a ∧ r = rowOf a ∧ c.extractLsb' 3 6 = a.extractLsb' 2 6 ∧
    (c.extractLsb' 0 3).toNat < j then d (c.extractLsb' 0 3) else mem b r c

/-- The cache RAMs with the first `j` half-words of a line overwritten. -/
def fillBeats (f : Content) (a : LineAdr) (d : BitVec 3 → BitVec 16) (j : ℕ) : Content :=
  fun l adr =>
  if adr.extractLsb' 2 9 = lineIndex a ∧ (halfOf (adr.extractLsb' 0 2) l).toNat < j then
    laneByte (d (halfOf (adr.extractLsb' 0 2) l) ++ d (halfOf (adr.extractLsb' 0 2) l)) l
  else f l adr

theorem chip_half_eq (c : Chip) (a : LineAdr) (j : ℕ) :
    Chip.half c a j = chipHalf c.mem a (BitVec.ofNat 3 j) := rfl

theorem writeBeats_zero (mem : Bank → Row → Column → BitVec 16) (a : LineAdr)
    (d : BitVec 3 → BitVec 16) : writeBeats mem a d 0 = mem := by
  funext b r c
  simp [writeBeats]

/-- One more beat. -/
theorem writeBeats_succ (mem : Bank → Row → Column → BitVec 16) (a : LineAdr)
    (d : BitVec 3 → BitVec 16) {j : ℕ} (hj : j < 8) :
    writeBeats mem a d (j + 1) = fun b r c =>
      if b = bankOf a ∧ r = rowOf a ∧ c = a.extractLsb' 2 6 ++ BitVec.ofNat 3 j then
        d (BitVec.ofNat 3 j) else writeBeats mem a d j b r c := by
  funext b r c
  have hc : c = a.extractLsb' 2 6 ++ BitVec.ofNat 3 j ↔
      c.extractLsb' 3 6 = a.extractLsb' 2 6 ∧ (c.extractLsb' 0 3).toNat = j :=
    (eq_append_iff (v := 6) (w := 3)).trans (and_congr_right fun _ => eq_ofNat_iff hj _)
  by_cases hk : b = bankOf a ∧ r = rowOf a ∧ c = a.extractLsb' 2 6 ++ BitVec.ofNat 3 j
  · obtain ⟨hb, hr, hc'⟩ := hk
    have h := hc.1 hc'
    rw [if_pos ⟨hb, hr, hc'⟩, writeBeats, if_pos ⟨hb, hr, h.1, by omega⟩,
      (eq_ofNat_iff hj _).2 h.2]
  · rw [if_neg hk, writeBeats, writeBeats]
    have hiff : (c.extractLsb' 3 6 = a.extractLsb' 2 6 ∧ (c.extractLsb' 0 3).toNat < j + 1) →
        b = bankOf a → r = rowOf a → (c.extractLsb' 0 3).toNat < j := by
      rintro ⟨h1, h2⟩ hb hr
      by_contra h3
      exact hk ⟨hb, hr, hc.2 ⟨h1, by omega⟩⟩
    by_cases hj' : b = bankOf a ∧ r = rowOf a ∧ c.extractLsb' 3 6 = a.extractLsb' 2 6 ∧
        (c.extractLsb' 0 3).toNat < j
    · rw [if_pos hj', if_pos ⟨hj'.1, hj'.2.1, hj'.2.2.1, by omega⟩]
    · rw [if_neg hj', if_neg]
      rintro ⟨h1, h2, h3, h4⟩
      exact hj' ⟨h1, h2, h3, hiff ⟨h3, h4⟩ h1 h2⟩

/-- One more beat: the two lanes of half-word `j` are overwritten. -/
theorem fillBeats_succ (f : Content) (a : LineAdr) (d : BitVec 3 → BitVec 16) (j : ℕ) (l : Lane)
    (adr : BitVec 11) : fillBeats f a d (j + 1) l adr =
      if adr.extractLsb' 2 9 = lineIndex a ∧ (halfOf (adr.extractLsb' 0 2) l).toNat = j then
        laneByte (d (halfOf (adr.extractLsb' 0 2) l) ++ d (halfOf (adr.extractLsb' 0 2) l)) l
      else fillBeats f a d j l adr := by
  simp only [fillBeats]
  by_cases h : adr.extractLsb' 2 9 = lineIndex a
  · rcases Nat.lt_trichotomy (halfOf (adr.extractLsb' 0 2) l).toNat j with hj | hj | hj
    · simp [h, hj, Nat.lt_succ_of_lt hj]
    · simp [h, hj]
    · have h1 : ¬ (halfOf (adr.extractLsb' 0 2) l).toNat < j + 1 := by omega
      simp [h, h1, Nat.lt_asymm hj, (Nat.ne_of_lt hj).symm]
  · simp [h]

/-- The write counters with the bytes of the first `j` half-words of a line counted once. -/
def countBeats (c : BitVec 11 → Lane → ℕ) (a : LineAdr) (j : ℕ) : BitVec 11 → Lane → ℕ :=
  fun adr l => c adr l +
    if adr.extractLsb' 2 9 = lineIndex a ∧ (halfOf (adr.extractLsb' 0 2) l).toNat < j then 1 else 0

theorem countBeats_succ (c : BitVec 11 → Lane → ℕ) (a : LineAdr) (j : ℕ) (adr : BitVec 11)
    (l : Lane) : countBeats c a (j + 1) adr l = countBeats c a j adr l +
      if adr.extractLsb' 2 9 = lineIndex a ∧ (halfOf (adr.extractLsb' 0 2) l).toNat = j then 1
      else 0 := by
  simp only [countBeats]
  by_cases h : adr.extractLsb' 2 9 = lineIndex a
  · rcases Nat.lt_trichotomy (halfOf (adr.extractLsb' 0 2) l).toNat j with hj | hj | hj
    · simp [h, hj, Nat.lt_succ_of_lt hj, Nat.ne_of_lt hj]
    · simp [h, hj]
    · have h1 : ¬ (halfOf (adr.extractLsb' 0 2) l).toNat < j + 1 := by omega
      simp [h, h1, Nat.lt_asymm hj, (Nat.ne_of_lt hj).symm]
  · simp [h]

theorem countBeats_zero (c : BitVec 11 → Lane → ℕ) (a : LineAdr) : countBeats c a 0 = c := by
  funext adr l
  simp [countBeats]

theorem fillBeats_zero (f : Content) (a : LineAdr) (d : BitVec 3 → BitVec 16) :
    fillBeats f a d 0 = f := by
  funext l adr
  simp [fillBeats]

/-! ### Port 1 -/

section Port

variable {s : System} {i : ClkIn}

/-- Outside the read burst port 1 only reads. -/
theorem cacheWe_false (h1 : s.core.state ≠ .readfirst) (h2 : s.core.state ≠ .readburst) (l : Lane) :
    s.cacheWe i l = false := by
  have h : (s.core.out (s.sdramIn i)).cacheWe = 0 := by
    fun_cases Sdram16.out s.core (s.sdramIn i) <;> simp_all
  rw [System.cacheWe, h]
  simp

theorem content_keep (h : ∀ l, s.cacheWe i l = false) : (s.clk i).content = s.content := by
  funext l
  simp [System.content, System.clk, Dpram.clk1, h l]

theorem writes_keep (h : ∀ l, s.cacheWe i l = false) : (s.clk i).writes = s.writes := by
  funext a l
  simp [System.clk, h l]

/-- The read registers of port 1 show word `w` of the line at an index. -/
def Loaded (s : System) (index : BitVec 9) (w : BitVec 2) : Prop :=
  ∀ l, (s.ram l).do1 = s.content l (cacheAdr index w)

theorem loaded_clk (h : ∀ l, s.cacheWe i l = false) :
    Loaded (s.clk i) s.core.cacheAdrMsb
      ((s.core.nextBurstCounter (s.sdramIn i)).extractLsb' 1 2) := by
  intro l
  rw [content_keep h]
  simp [System.clk, Dpram.clk1, h l, System.content, Sdram16.cacheAdrO]

/-- A loaded word goes out half by half. -/
theorem dqOut_clk {index : BitVec 9} {k : ℕ} (hk : k < 8)
    (hc : s.core.burstCounter = BitVec.ofNat 4 k)
    (hl : Loaded s index ((BitVec.ofNat 4 k).extractLsb' 1 2)) :
    (s.clk i).core.pins.dqOut = cacheHalf s.content index (BitVec.ofNat 3 k) := by
  have hw : (s.sdramIn i).cacheDatI =
      lanes fun l => s.content l (cacheAdr index ((BitVec.ofNat 4 k).extractLsb' 1 2)) := by
    simp only [System.sdramIn, show ∀ l, (s.ram l).do1 = _ from hl]
  have h1 : (BitVec.ofNat 4 k).extractLsb' 1 2 = (BitVec.ofNat 3 k).extractLsb' 1 2 := by
    interval_cases k <;> rfl
  have h0 : (BitVec.ofNat 4 k)[0] = (BitVec.ofNat 3 k)[0] := by
    interval_cases k <;> rfl
  change s.core.dqOut _ = _
  rw [Sdram16.dqOut, hw, hc, h0, h1]
  rfl

end Port

/-! ### Eviction -/

/-- A line `e` is being evicted: `M`, `F` and `W` are the chip's memory, the content of the cache
    RAMs and the write counters at the start. -/
structure Evicting (M : Bank → Row → Column → BitVec 16) (F : Content)
    (W : BitVec 11 → Lane → ℕ) (e r : LineAdr) (s : System) : Prop where
  busy : s.ctl.busy = some (e, r)
  msb : s.core.cacheAdrMsb = lineIndex e
  content : s.content = F
  writes : s.writes = W
  phase : (s.core.state = .prechargeBeforeWrite ∧ s.chip.mem = M) ∨
    ((s.core.state = .activateBeforeWrite ∨ s.core.state = .write) ∧ s.chip.mem = M ∧
      Loaded s (lineIndex e) 0) ∨
    (s.core.state = .writeburst ∧ ∃ k, Writing s e k ∧
      s.chip.mem = writeBeats M e (cacheHalf F (lineIndex e)) (k - 1) ∧
      s.core.pins.dqOut = cacheHalf F (lineIndex e) (BitVec.ofNat 3 (k - 1)) ∧
      (k < 8 → Loaded s (lineIndex e) ((BitVec.ofNat 4 k).extractLsb' 1 2)))

/-- Line `e` has been evicted, and nothing else has been written. -/
structure Evicted (M : Bank → Row → Column → BitVec 16) (F : Content)
    (W : BitVec 11 → Lane → ℕ) (e r : LineAdr) (s : System) : Prop where
  state : s.core.state = .prechargeBeforeRead
  busy : s.ctl.busy = some (e, r)
  mem : s.chip.mem = writeBeats M e (cacheHalf F (lineIndex e)) 8
  content : s.content = F
  writes : s.writes = W

section Evict

variable {M : Bank → Row → Column → BitVec 16} {F : Content} {W : BitVec 11 → Lane → ℕ}
variable {e r : LineAdr} {s : System} {i : ClkIn}

/-- The beat on the pins reaches the chip. -/
theorem Writing.mem {k : ℕ} (hw : Writing s e k) (h : s.chip.mem =
      writeBeats M e (cacheHalf F (lineIndex e)) (k - 1))
    (hdq : s.core.pins.dqOut = cacheHalf F (lineIndex e) (BitVec.ofNat 3 (k - 1))) :
    (s.clk i).chip.mem = writeBeats M e (cacheHalf F (lineIndex e)) k := by
  have hp := hw.pos
  have h8 := hw.le
  have hk : k = k - 1 + 1 := by omega
  have hbus : s.chip.busIn s.core.pins i.float = s.core.pins.dqOut := by
    simp [Chip.busIn, hw.drive, hw.dq]
  rw [chip_clk hw.ckeZ, hw.burst, hk, writeBeats_succ _ _ _ (by omega)]
  funext b r' c
  simp only [Chip.memAfter, hw.dqm, hbus, column_line, ← hk, h, hdq]
  rfl

/-- What every edge of an eviction but the last keeps. -/
theorem Evicting.frame (he : Evicting M F W e r s) (hl : s.ctl.legal (s.sdramIn i))
    (hst : s.core.state = .prechargeBeforeWrite ∨ s.core.state = .activateBeforeWrite ∨
      s.core.state = .write ∨ s.core.state = .writeburst) :
    (s.clk i).ctl.busy = some (e, r) ∧ (s.clk i).content = F ∧ (s.clk i).writes = W ∧
    Loaded (s.clk i) (lineIndex e) ((s.clk i).core.burstCounter.extractLsb' 1 2) ∧
    ((s.clk i).core.state ≠ .prechargeBeforeRead → (s.clk i).core.cacheAdrMsb = lineIndex e) := by
  have hwe : ∀ l, s.cacheWe i l = false :=
    cacheWe_false (by rcases hst with h | h | h | h <;> simp [h])
      (by rcases hst with h | h | h | h <;> simp [h])
  refine ⟨busy_keep he.busy hl (commandAck_false (show s.core.state ≠ _ by
    rcases hst with h | h | h | h <;> simp [h])), (content_keep hwe).trans he.content,
    (writes_keep hwe).trans he.writes, ?_, fun h' => ?_⟩
  · have h := loaded_clk hwe
    rw [he.msb] at h
    exact h
  · rw [← he.msb]
    rw [core_clk, Sdram16.clk] at h' ⊢
    revert h'
    fun_cases Sdram16.out s.core (s.sdramIn i) <;> simp_all

theorem Calm.mem (hc : Calm s) : (s.clk i).chip.mem = s.chip.mem := by rw [hc.chip]

/-- The states before the burst: the first word is loaded. -/
theorem Evicting.prepare (hc : Calm s) (he : Evicting M F W e r s)
    (hl : s.ctl.legal (s.sdramIn i))
    (hst : s.core.state = .prechargeBeforeWrite ∨ s.core.state = .activateBeforeWrite ∨
      s.core.state = .write)
    (hm : s.chip.mem = M) (h' : (s.clk i).core.state = .activateBeforeWrite ∨
      (s.clk i).core.state = .write) : Evicting M F W e r (s.clk i) := by
  obtain ⟨hb, hcon, hwr, hld, hmsb⟩ := he.frame hl (by
    rcases hst with h | h | h <;> simp [h])
  rw [rewound_clk (.inr h')] at hld
  refine ⟨hb, hmsb ?_, hcon, hwr, .inr (.inl ⟨h', (hc.mem (i := i)).trans hm, hld⟩)⟩
  rcases h' with h' | h' <;> simp [h']

/-- WRITE goes out with half-word 0. -/
theorem Evicting.write (hi : Inv s) (hc : Calm s) (he : Evicting M F W e r s)
    (hl : s.ctl.legal (s.sdramIn i)) (hst : s.core.state = .write) (hm : s.chip.mem = M)
    (hload : Loaded s (lineIndex e) 0) (hd : s.core.activateDone = true) :
    Evicting M F W e r (s.clk i) := by
  obtain ⟨hb, hcon, hwr, hld, hmsb⟩ := he.frame hl (by simp [hst])
  have hz : s.core.burstCounter = 0 := hi.rewound (by simp [hst])
  have h' : (s.clk i).core.state = .writeburst := by
    rw [core_clk, Sdram16.state_clk, hst]
    exact if_pos hd
  have h1 : (s.clk i).core.burstCounter = 1 := by
    change s.core.nextBurstCounter _ = _
    simp [Sdram16.nextBurstCounter, Sdram16.burstFinished, Sdram16.out, hst, hd, hz]
  have hchip := (inv_clk hi hl).chip
  rw [ChipPhase, h'] at hchip
  obtain ⟨e', r', k, hb', hw⟩ := hchip
  rw [hb] at hb'
  cases hb'
  obtain rfl : k = 1 := by
    have hk := hw.counter
    have h8 := hw.le
    rw [h1] at hk
    interval_cases k <;> first | rfl | cases hk
  have hdq := dqOut_clk (i := i) (k := 0) (by omega) hz hload
  rw [he.content] at hdq
  refine ⟨hb, hmsb (by simp [h']), hcon, hwr, .inr (.inr ⟨h', 1, hw, ?_, hdq, fun _ => ?_⟩)⟩
  · rw [writeBeats_zero]
    exact (hc.mem (i := i)).trans hm
  · rw [hw.counter] at hld
    exact hld

/-- WRITEBURST sends the other half-words and ends the eviction. -/
theorem Evicting.burst {k : ℕ} (he : Evicting M F W e r s) (hl : s.ctl.legal (s.sdramIn i))
    (hst : s.core.state = .writeburst) (hw : Writing s e k)
    (hm : s.chip.mem = writeBeats M e (cacheHalf F (lineIndex e)) (k - 1))
    (hdq : s.core.pins.dqOut = cacheHalf F (lineIndex e) (BitVec.ofNat 3 (k - 1)))
    (hload : k < 8 → Loaded s (lineIndex e) ((BitVec.ofNat 4 k).extractLsb' 1 2)) :
    Evicted M F W e r (s.clk i) ∨ Evicting M F W e r (s.clk i) := by
  obtain ⟨hb, hcon, hwr, hld, hmsb⟩ := he.frame hl (by simp [hst])
  have hm' := hw.mem (i := i) hm hdq
  have hn := s.core.state_clk (s.sdramIn i)
  rw [hst] at hn
  rcases Nat.lt_or_ge k 8 with hk | hk
  · right
    have hf : s.core.burstFinished = false := by rw [hw.burstFinished]; simp; omega
    have h' : (s.clk i).core.state = .writeburst := hn.trans (if_neg (by simp [hf]))
    have hw' := hw.next (i := i) hst hk
    have hdq' := dqOut_clk (i := i) hk hw.counter (hload hk)
    rw [he.content] at hdq'
    refine ⟨hb, hmsb (by simp [h']), hcon, hwr,
      .inr (.inr ⟨h', k + 1, hw', hm', hdq', fun _ => ?_⟩)⟩
    rw [hw'.counter] at hld
    exact hld
  · left
    obtain rfl : k = 8 := le_antisymm hw.le hk
    have hf : s.core.burstFinished = true := by rw [hw.burstFinished]; rfl
    exact ⟨hn.trans (if_pos hf), hb, hm', hcon, hwr⟩

theorem Evicting.serves (he : Evicting M F W e r s) :
    serving s.core.state = true ∧ s.core.state ≠ .readburst := by
  rcases he.phase with ⟨h, -⟩ | ⟨h | h, -⟩ | ⟨h, -⟩ <;> simp [h, serving]

/-- STEP: an edge of an eviction finishes it or brings it nearer to its end. -/
theorem Evicting.step (hi : Inv s) (he : Evicting M F W e r s) (hl : s.ctl.legal (s.sdramIn i)) :
    Evicted M F W e r (s.clk i) ∨
      (Evicting M F W e r (s.clk i) ∧ serveRank (s.clk i).core < serveRank s.core) := by
  have hrank : serveRank (s.clk i).core < serveRank s.core :=
    serveRank_serve he.serves.1 (fun h => absurd h he.serves.2) (commandAck_false he.serves.2)
  have hchip := hi.chip
  rw [ChipPhase] at hchip
  have hn := s.core.state_clk (s.sdramIn i)
  rcases he.phase with ⟨hst, hm⟩ | ⟨hst | hst, hm, hload⟩ | ⟨hst, k, hw, hm, hdq, hload⟩
  · rw [hst] at hchip hn
    refine .inr ⟨he.prepare hchip hl (by simp [hst]) hm ?_, hrank⟩
    rw [core_clk, hn]
    dsimp only
    split <;> simp
  · rw [hst] at hchip hn
    refine .inr ⟨he.prepare hchip hl (by simp [hst]) hm ?_, hrank⟩
    rw [core_clk, hn]
    dsimp only
    split <;> simp
  · rw [hst] at hchip hn
    refine .inr ⟨?_, hrank⟩
    cases hd : s.core.activateDone with
    | true => exact he.write hi hchip hl hst hm hload hd
    | false =>
      refine he.prepare hchip hl (by simp [hst]) hm (.inr ?_)
      exact hn.trans (if_neg (by simp [hd]))
  · exact (he.burst hl hst hw hm hdq hload).imp id fun h => ⟨h, hrank⟩

end Evict

/-! ### Refill -/

/-- The byte lanes of half-word `j` of a line. -/
def halfLane (j : ℕ) (l : Lane) : Bool := if (BitVec.ofNat 3 j)[0] then l.val < 2 else 2 ≤ l.val

theorem halfOf_eq_iff {j : ℕ} (hj : j < 8) (index : BitVec 9) (adr : BitVec 11) (l : Lane) :
    adr.extractLsb' 2 9 = index ∧ (halfOf (adr.extractLsb' 0 2) l).toNat = j ↔
      halfLane j l = true ∧ adr = cacheAdr index ((BitVec.ofNat 3 j).extractLsb' 1 2) := by
  have hbit : (BitVec.ofNat 3 j).extractLsb' 0 1 = (if l.val < 2 then 1#1 else 0#1) ↔
      halfLane j l = true := by
    revert l
    interval_cases j <;> decide
  have hadr : adr = cacheAdr index ((BitVec.ofNat 3 j).extractLsb' 1 2) ↔
      adr.extractLsb' 2 9 = index ∧ adr.extractLsb' 0 2 = (BitVec.ofNat 3 j).extractLsb' 1 2 :=
    eq_append_iff (v := 9) (w := 2)
  have hhalf : (halfOf (adr.extractLsb' 0 2) l).toNat = j ↔
      (BitVec.ofNat 3 j).extractLsb' 1 2 = adr.extractLsb' 0 2 ∧ halfLane j l = true := by
    rw [← hbit, ← eq_append_iff (v := 2) (w := 1), ← eq_ofNat_iff hj]
    exact eq_comm
  rw [hhalf, hadr]
  constructor
  · rintro ⟨h1, h2, h3⟩
    exact ⟨h3, h1, h2.symm⟩
  · rintro ⟨h1, h2, h3⟩
    exact ⟨h2, h3.symm, h1⟩

/-- A line `r` is being refilled. -/
structure Refilling (M : Bank → Row → Column → BitVec 16) (F : Content)
    (W : BitVec 11 → Lane → ℕ) (e r : LineAdr) (s : System) : Prop where
  busy : s.ctl.busy = some (e, r)
  msb : s.core.cacheAdrMsb = lineIndex r
  mem : s.chip.mem = M
  phase : ((s.core.state = .prechargeBeforeRead ∨ s.core.state = .activateBeforeRead ∨
      s.core.state = .read ∨ s.core.state = .readreg1 ∨ s.core.state = .readreg2 ∨
      s.core.state = .readreg3 ∨ s.core.state = .readfirst) ∧ s.content = F ∧ s.writes = W) ∨
    (s.core.state = .readburst ∧ ∃ k, k < 8 ∧ s.core.burstCounter = BitVec.ofNat 4 k ∧
      s.content = fillBeats F r (chipHalf M r) (k + 1) ∧ s.writes = countBeats W r (k + 1))

/-- Line `r` has been refilled and acknowledged, and nothing else has been written. -/
structure Refilled (M : Bank → Row → Column → BitVec 16) (F : Content)
    (W : BitVec 11 → Lane → ℕ) (r : LineAdr) (s : System) : Prop where
  state : s.core.state = .idle
  busy : s.ctl.busy = none
  mem : s.chip.mem = M
  content : s.content = fillBeats F r (chipHalf M r) 8
  writes : s.writes = countBeats W r 8

section Refill

variable {M : Bank → Row → Column → BitVec 16} {F : Content} {W : BitVec 11 → Lane → ℕ}
variable {e r : LineAdr} {s : System} {i : ClkIn}

/-- Port 1 writes half-word `j`. -/
theorem fill_clk {j : ℕ} (hj : j < 8) (hwe : ∀ l, s.cacheWe i l = halfLane j l)
    (hadr : s.core.cacheAdrO (s.sdramIn i) =
      cacheAdr (lineIndex r) ((BitVec.ofNat 3 j).extractLsb' 1 2))
    (hdq : s.core.dqIn = chipHalf M r (BitVec.ofNat 3 j))
    (hc : s.content = fillBeats F r (chipHalf M r) j) (hw : s.writes = countBeats W r j) :
    (s.clk i).content = fillBeats F r (chipHalf M r) (j + 1) ∧
      (s.clk i).writes = countBeats W r (j + 1) := by
  constructor
  · funext l adr
    rw [fillBeats_succ, ← hc]
    by_cases h : adr.extractLsb' 2 9 = lineIndex r ∧ (halfOf (adr.extractLsb' 0 2) l).toNat = j
    · have hh : halfOf (adr.extractLsb' 0 2) l = BitVec.ofNat 3 j := (eq_ofNat_iff hj _).2 h.2
      obtain ⟨h1, h2⟩ := (halfOf_eq_iff hj _ _ _).1 h
      rw [if_pos h, hh, ← hdq]
      simp [System.content, System.clk, Dpram.clk1, hwe, h1, h2, hadr, Sdram16.cacheDatO]
    · rw [if_neg h]
      rw [halfOf_eq_iff hj] at h
      cases hl : halfLane j l with
      | false => simp [System.content, System.clk, Dpram.clk1, hwe, hl]
      | true =>
        have hne : adr ≠ cacheAdr (lineIndex r) ((BitVec.ofNat 3 j).extractLsb' 1 2) :=
          fun h' => h ⟨hl, h'⟩
        simp [System.content, System.clk, Dpram.clk1, hwe, hl, hadr, hne]
  · funext adr l
    rw [countBeats_succ, ← hw]
    simp only [System.clk, hwe, hadr, ← halfOf_eq_iff hj]

/-- What every edge of a refill but the last keeps. -/
theorem Refilling.frame (hr : Refilling M F W e r s) (hl : s.ctl.legal (s.sdramIn i))
    (hack : s.core.commandAck (s.sdramIn i) = false) :
    (s.clk i).ctl.busy = some (e, r) ∧ (s.clk i).core.cacheAdrMsb = lineIndex r := by
  refine ⟨busy_keep hr.busy hl hack, ?_⟩
  rw [← hr.msb, core_clk, Sdram16.clk]
  rcases hr.phase with ⟨h | h | h | h | h | h | h, -⟩ | ⟨h, -⟩ <;>
    fun_cases Sdram16.out s.core (s.sdramIn i) <;> simp_all

/-- The states before the first half-word: nothing is written. -/
theorem Refilling.wait (hr : Refilling M F W e r s) (hl : s.ctl.legal (s.sdramIn i))
    (hst : s.core.state = .prechargeBeforeRead ∨ s.core.state = .activateBeforeRead ∨
      s.core.state = .read ∨ s.core.state = .readreg1 ∨ s.core.state = .readreg2 ∨
      s.core.state = .readreg3) (hc : s.content = F) (hw : s.writes = W)
    (hm : (s.clk i).chip.mem = s.chip.mem) : Refilling M F W e r (s.clk i) := by
  have hwe : ∀ l, s.cacheWe i l = false :=
    cacheWe_false (by rcases hst with h | h | h | h | h | h <;> simp [h])
      (by rcases hst with h | h | h | h | h | h <;> simp [h])
  obtain ⟨hb, hmsb⟩ := hr.frame hl
    (commandAck_false (show s.core.state ≠ _ by
      rcases hst with h | h | h | h | h | h <;> simp [h]))
  refine ⟨hb, hmsb, hm.trans hr.mem,
    .inl ⟨?_, (content_keep hwe).trans hc, (writes_keep hwe).trans hw⟩⟩
  rw [core_clk, Sdram16.state_clk]
  rcases hst with h | h | h | h | h | h <;> rw [h] <;> dsimp only <;> try simp
  all_goals split <;> simp

/-- READFIRST writes half-word 0. -/
theorem Refilling.first (hr : Refilling M F W e r s) (hl : s.ctl.legal (s.sdramIn i))
    (hst : s.core.state = .readfirst) (hrd : Reading s r 3) (hc : s.content = F)
    (hw : s.writes = W) : Refilling M F W e r (s.clk i) := by
  obtain ⟨hb, hmsb⟩ := hr.frame hl (commandAck_false (show s.core.state ≠ _ by simp [hst]))
  have hm := hrd.mem (i := i)
  have h' : (s.clk i).core.state = .readburst := by rw [core_clk, Sdram16.state_clk, hst]
  have h0 : s.core.nextBurstCounter (s.sdramIn i) = 0 := by
    simp [Sdram16.nextBurstCounter, Sdram16.out, hst]
  have hwe : ∀ l, s.cacheWe i l = halfLane 0 l := by
    intro l
    simp only [System.cacheWe, Sdram16.out, hst]
    revert l
    decide
  have hadr : s.core.cacheAdrO (s.sdramIn i) =
      cacheAdr (lineIndex r) ((BitVec.ofNat 3 0).extractLsb' 1 2) := by
    rw [Sdram16.cacheAdrO, hr.msb, h0]
    rfl
  have hdq : s.core.dqIn = chipHalf M r (BitVec.ofNat 3 0) := by
    rw [hrd.dqIn (by omega) (by omega), chip_half_eq, hr.mem]
  have hfill := fill_clk (F := F) (W := W) (j := 0) (by omega) hwe hadr hdq
    (by rw [fillBeats_zero]; exact hc) (by rw [countBeats_zero]; exact hw)
  exact ⟨hb, hmsb, hm.trans hr.mem, .inr ⟨h', 0, by omega, h0, hfill⟩⟩

/-- READBURST with counter `k` writes half-word `k + 1`, or is the last cycle. -/
theorem Refilling.burst {k : ℕ} (hr : Refilling M F W e r s) (hl : s.ctl.legal (s.sdramIn i))
    (hst : s.core.state = .readburst) (hk : k < 8) (hcnt : s.core.burstCounter = BitVec.ofNat 4 k)
    (hrd : Reading s r (k + 4)) (hc : s.content = fillBeats F r (chipHalf M r) (k + 1))
    (hw : s.writes = countBeats W r (k + 1)) :
    Refilled M F W r (s.clk i) ∨
      (Refilling M F W e r (s.clk i) ∧ s.core.commandAck (s.sdramIn i) = false) := by
  have hlast := burstLast_eq hcnt hk
  have hm := hrd.mem (i := i)
  have hn' := s.core.state_clk (s.sdramIn i)
  rw [hst] at hn'
  by_cases h7 : k = 7
  · left
    subst h7
    have hwe : ∀ l, s.cacheWe i l = false := by
      intro l
      simp [System.cacheWe, Sdram16.out, hst, hlast]
    refine ⟨hn'.trans (if_pos hlast), ?_, hm.trans hr.mem, (content_keep hwe).trans hc,
      (writes_keep hwe).trans hw⟩
    exact if_pos ((commandAck_iff _ _).2 ⟨hst, hlast⟩)
  · right
    have hf : s.core.burstLast = false := by rw [hlast]; simpa using h7
    have hack : s.core.commandAck (s.sdramIn i) = false := by
      simp [Sdram16.commandAck, Sdram16.out, hst, hf]
    have hfin : s.core.burstFinished = false := by
      rw [Sdram16.burstFinished, hcnt]
      interval_cases k <;> decide
    obtain ⟨hb, hmsb⟩ := hr.frame hl hack
    have hn : s.core.nextBurstCounter (s.sdramIn i) = BitVec.ofNat 4 (k + 1) := by
      simp only [Sdram16.nextBurstCounter, Sdram16.out, hst, hf, hfin, Bool.false_eq_true, if_false,
        hcnt]
      rw [BitVec.ofNat_add]
      rfl
    have hwe : ∀ l, s.cacheWe i l = halfLane (k + 1) l := by
      intro l
      have hodd : s.core.burstCounter[0] = !(BitVec.ofNat 3 (k + 1))[0] := by
        rw [hcnt]
        interval_cases k <;> rfl
      simp only [System.cacheWe, Sdram16.out, hst, hf, hodd, halfLane, Bool.false_eq_true, if_false]
      cases (BitVec.ofNat 3 (k + 1))[0] <;> revert l <;> decide
    have hadr : s.core.cacheAdrO (s.sdramIn i) =
        cacheAdr (lineIndex r) ((BitVec.ofNat 3 (k + 1)).extractLsb' 1 2) := by
      rw [Sdram16.cacheAdrO, hr.msb, hn]
      congr 1
      interval_cases k <;> rfl
    have hdq : s.core.dqIn = chipHalf M r (BitVec.ofNat 3 (k + 1)) := by
      rw [hrd.dqIn (by omega) (by omega), chip_half_eq, hr.mem]
      congr 2
    have hfill := fill_clk (by omega) hwe hadr hdq hc hw
    exact ⟨⟨hb, hmsb, hm.trans hr.mem,
      .inr ⟨hn'.trans (if_neg (by simp [hf])), k + 1, by omega, hn, hfill⟩⟩, hack⟩

theorem Refilling.serves (hr : Refilling M F W e r s) :
    serving s.core.state = true ∧ Counted s.core := by
  rcases hr.phase with ⟨h | h | h | h | h | h | h, -⟩ | ⟨h, k, hk, hcnt, -⟩
  all_goals refine ⟨by simp [h, serving], fun h' => ?_⟩
  case inr =>
    rw [hcnt, BitVec.toNat_ofNat]
    omega
  all_goals simp [h] at h'

/-- STEP: an edge of a refill finishes it or brings it nearer to its end. -/
theorem Refilling.step (hi : Inv s) (hr : Refilling M F W e r s) (hl : s.ctl.legal (s.sdramIn i)) :
    Refilled M F W r (s.clk i) ∨
      (Refilling M F W e r (s.clk i) ∧ serveRank (s.clk i).core < serveRank s.core) := by
  have hrank : s.core.commandAck (s.sdramIn i) = false →
      serveRank (s.clk i).core < serveRank s.core := serveRank_serve hr.serves.1 hr.serves.2
  have hchip := hi.chip
  rw [ChipPhase] at hchip
  -- the line being read is the one of the outstanding command
  have hread : ∀ {m}, (∃ e' r', s.ctl.busy = some (e', r') ∧ Reading s r' m) → Reading s r m := by
    rintro m ⟨e', r', hb, h⟩
    rw [hr.busy] at hb
    cases hb
    exact h
  rcases hr.phase with ⟨h | h | h | h | h | h | h, hc, hw⟩ | ⟨h, k, hk, hcnt, hc, hw⟩ <;>
    rw [h] at hchip
  case inr =>
    obtain ⟨e', r', k', hb, hk', hcnt', hrd⟩ := hchip
    rw [hr.busy] at hb
    cases hb
    obtain rfl : k = k' := by
      rw [hcnt] at hcnt'
      have := congrArg BitVec.toNat hcnt'
      simp only [BitVec.toNat_ofNat] at this
      omega
    exact (hr.burst hl h hk hcnt hrd hc hw).imp id fun h' => ⟨h'.1, hrank h'.2⟩
  all_goals
    refine .inr ⟨?_, hrank (commandAck_false (show s.core.state ≠ _ by simp [h]))⟩
  · exact hr.wait hl (by simp [h]) hc hw (Calm.mem hchip)
  · exact hr.wait hl (by simp [h]) hc hw (Calm.mem hchip)
  · exact hr.wait hl (by simp [h]) hc hw (Calm.mem hchip)
  · exact hr.wait hl (by simp [h]) hc hw (hread hchip).mem
  · exact hr.wait hl (by simp [h]) hc hw (hread hchip).mem
  · exact hr.wait hl (by simp [h]) hc hw (hread hchip).mem
  · exact hr.first hl h (hread hchip) hc hw

end Refill

end DsdOrsoc.Yadmc.Transfer
