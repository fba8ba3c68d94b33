import DsdOrsoc.Schemes.Machine
import DsdOrsoc.Schemes.WriteBack
import DsdOrsoc.Yadmc.Cache

/-! The cache front end of `yadmc` is a flat byte-addressable memory.

    The sys_clk side runs against any low-level controller that answers an evict command by copying
    the cache line to the SDRAM line `evict_adr` and then the SDRAM line `refill_adr` into the
    cache, answers a refill command by the second copy, and acknowledges each command once. Its
    moves come at any time between two sys_clk edges, and the acknowledge passes `sync_ack`:

        command:  none ──▶ evict ──▶ refill ──▶ copied ──▶ acked ──▶ none
                           copy      copy       flag       command_ack

    The proof maps every state to the abstract `WriteBack` cache. An edge is a read (no change), a
    store, an eviction or a replacement there, and only stores change the memory that is shown. -/

namespace DsdOrsoc.Yadmc.Flat
open Schemes

/-- The content of a line: four words of four byte lanes. -/
abbrev Line := BitVec 2 → Lane → Byte

/-- Progress of the low-level controller on the outstanding command. -/
inductive Ctl where | none | evict | refill | copied | acked
  deriving DecidableEq

/-- Cache, SDRAM content and controller, with two observers: the request in progress on the bus
    and the acknowledged requests, latest first. -/
structure System where
  cache : Cache
  syncAck : Sync
  sdram : LineAdr → Line
  ctl : Ctl
  req : Option Wb
  log : List Wb

/-- A sys_clk edge with the bus inputs, or a move of the controller between two of them. -/
inductive Edge where
  | sys (wb : Wb) (cyc stb : Bool)
  | ctl

/-- The tag part of a line address. -/
def lineTag (a : LineAdr) : BitVec 12 := a.extractLsb' 9 12

/-- The line stored at an index of the cache RAMs. -/
def lineOf (c : Cache) (j : BitVec 9) : Line := fun w l => (c.cacheline l).storage (cacheAdr j w)

/-- Overwrite the line at an index of the cache RAMs. -/
def setLine (c : Cache) (j : BitVec 9) (d : Line) : Cache :=
  { c with cacheline := fun l => { c.cacheline l with
      storage := fun a => if a.extractLsb' 2 9 = j then d (a.extractLsb' 0 2) l
        else (c.cacheline l).storage a } }

namespace System

variable (s : System)

/-- The controller's next move on the outstanding command. -/
def serve : System :=
  match s.ctl with
  | .evict => { s with
      sdram := Function.update s.sdram s.cache.evictAdr
        (lineOf s.cache (lineIndex s.cache.evictAdr))
      ctl := .refill }
  | .refill => { s with
      cache := setLine s.cache (lineIndex s.cache.refillAdr) (s.sdram s.cache.refillAdr)
      ctl := .copied }
  | .copied => { s with syncAck := s.syncAck.clk0 true, ctl := .acked }
  | _ => s

/-- What the cache sees in a cycle. -/
def cacheIn (wb : Wb) (cyc stb : Bool) : CacheIn :=
  { wb := wb, cyc := cyc, stb := stb, commandAck := s.syncAck.flago }

@[simp] theorem cacheIn_wb (wb : Wb) (cyc stb : Bool) : (s.cacheIn wb cyc stb).wb = wb := rfl

@[simp] theorem cacheIn_cyc (wb : Wb) (cyc stb : Bool) : (s.cacheIn wb cyc stb).cyc = cyc := rfl

@[simp] theorem cacheIn_stb (wb : Wb) (cyc stb : Bool) : (s.cacheIn wb cyc stb).stb = stb := rfl

@[simp] theorem cacheIn_commandAck (wb : Wb) (cyc stb : Bool) :
    (s.cacheIn wb cyc stb).commandAck = s.syncAck.flago := rfl

/-- The command of the controller after a sys_clk edge with cache outputs `o`. -/
def nextCtl (o : CacheOut) : Ctl :=
  if o.commandEvict then .evict else if o.commandRefill then .refill
  else if s.syncAck.flago then .none else s.ctl

/-- A sys_clk edge. A request is in progress from its first `cyc & stb` cycle to its `wb_ack_o`. -/
def sysClk (i : CacheIn) : System :=
  let o := s.cache.out i
  { cache := s.cache.sysClk i
    syncAck := s.syncAck.clk1
    sdram := s.sdram
    ctl := s.nextCtl o
    req := if o.wbAckO then none
      else if s.req = none ∧ (i.cyc && i.stb) = true then some i.wb else s.req
    log := if o.wbAckO then i.wb :: s.log else s.log }

def step : Edge → System
  | .sys wb cyc stb => s.sysClk (s.cacheIn wb cyc stb)
  | .ctl => s.serve

/-- The only rule of the bus: a request is held unchanged until its acknowledge. -/
def legal : Edge → Prop
  | .sys wb _ _ => ∀ r, s.req = some r → wb = r
  | .ctl => True

end System

/-- The composition from power-up: all RAMs zero, the FSM idle, `mem` in the SDRAM. -/
def flat (mem : LineAdr → Line) : Machine System Edge where
  start s := s.cache.state = .idle ∧ (∀ l a, (s.cache.cacheline l).storage a = 0) ∧
    (∀ j, s.cache.cachetags.storage j = { tag := 0#12, dirty := false }) ∧
    s.syncAck.Quiet ∧ s.sdram = mem ∧ s.ctl = .none ∧ s.req = none ∧ s.log = []
  legal := System.legal
  step := System.step

theorem reachable_step {mem : LineAdr → Line} {s : System} {e : Edge}
    (hs : (flat mem).Reachable s) (hl : s.legal e) : (flat mem).Reachable (s.step e) :=
  .step hs hl

/-! ### What a memory shows -/

/-- A request writes byte lane `l` of word `a`. -/
def writes (r : Wb) (a : BitVec 23) (l : Lane) : Prop :=
  r.we = true ∧ address r.adr = a ∧ r.sel.getLsbD l = true

instance (r : Wb) (a : BitVec 23) (l : Lane) : Decidable (writes r a l) := by
  unfold writes; infer_instance

/-- The byte of the most recent acknowledged write to lane `l` of word `a`. -/
def lastByte : List Wb → BitVec 23 → Lane → Option Byte
  | [], _, _ => none
  | r :: rs, a, l => if writes r a l then some (laneByte r.dat l) else lastByte rs a l

/-- What became of the zeros that the cache shows at power-up in its line of tag 0 at index `j`, by
    the acknowledged requests: still resident (`none`), written back because a write made the line
    dirty first (`some true`), or dropped for another line because it did not (`some false`). -/
def fate : List Wb → BitVec 9 → Option Bool
  | [], _ => none
  | r :: rs, j =>
    match fate rs j with
    | some b => some b
    | none =>
      if cacheIndex (address r.adr) ≠ j then none
      else if cacheTag (address r.adr) ≠ 0#12 then some false
      else if r.we then some true else none

/-- The byte an unwritten word shows: the SDRAM's, except in the lines of tag 0, which are resident
    in the zeroed cache at power-up. -/
def powerUpByte (mem : LineAdr → Line) (log : List Wb) (a : BitVec 23) (l : Lane) : Byte :=
  if cacheTag a = 0#12 ∧ fate log (cacheIndex a) ≠ some false then 0#8
  else mem (lineAdr (cacheTag a) (cacheIndex a)) (cacheLindex a) l

/-- The byte a read has to return after the acknowledged requests `log`. -/
def expected (mem : LineAdr → Line) (log : List Wb) (a : BitVec 23) (l : Lane) : Byte :=
  (lastByte log a l).getD (powerUpByte mem log a l)

/-- If the SDRAM is zero where the cache is, every unwritten word shows the SDRAM's byte. -/
theorem powerUpByte_eq {mem : LineAdr → Line} (h : ∀ j w l, mem (lineAdr 0#12 j) w l = 0#8)
    (log : List Wb) (a : BitVec 23) (l : Lane) :
    powerUpByte mem log a l = mem (lineAdr (cacheTag a) (cacheIndex a)) (cacheLindex a) l := by
  rw [powerUpByte]
  split
  · rename_i h0
    rw [h0.1, h]
  · rfl

theorem powerUpByte_cons {mem : LineAdr → Line} {r : Wb} {log : List Wb} {a : BitVec 23}
    (h : cacheTag a = 0#12 → fate (r :: log) (cacheIndex a) = fate log (cacheIndex a)) (l : Lane) :
    powerUpByte mem (r :: log) a l = powerUpByte mem log a l := by
  by_cases h0 : cacheTag a = 0#12
  · simp only [powerUpByte, h h0]
  · rw [powerUpByte, powerUpByte, if_neg (fun h' => h0 h'.1), if_neg (fun h' => h0 h'.1)]

theorem expected_cons {mem : LineAdr → Line} {r : Wb} {log : List Wb} {a : BitVec 23} (l : Lane)
    (h : cacheTag a = 0#12 → fate (r :: log) (cacheIndex a) = fate log (cacheIndex a)) :
    expected mem (r :: log) a l =
      if writes r a l then laneByte r.dat l else expected mem log a l := by
  simp only [expected, lastByte, powerUpByte_cons h]
  split <;> rfl

theorem fate_cons_of_some {r : Wb} {log : List Wb} {j : BitVec 9} {b : Bool}
    (h : fate log j = some b) : fate (r :: log) j = some b := by
  simp [fate, h]

theorem fate_cons_of_none {r : Wb} {log : List Wb} {j : BitVec 9} (h : fate log j = none) :
    fate (r :: log) j = if cacheIndex (address r.adr) ≠ j then none
      else if cacheTag (address r.adr) ≠ 0#12 then some false
      else if r.we then some true else none := by
  simp [fate, h]

/-- While the power-up zeros are resident, nothing has been written there. -/
theorem lastByte_of_fate : ∀ {log : List Wb} {a : BitVec 23} (l : Lane), cacheTag a = 0#12 →
    fate log (cacheIndex a) = none → lastByte log a l = none
  | [], _, _, _, _ => rfl
  | r :: rs, a, l, h0, hf => by
    have hrs : fate rs (cacheIndex a) = none := by
      cases h : fate rs (cacheIndex a) with
      | none => rfl
      | some b => rw [fate_cons_of_some h] at hf; cases hf
    have hw : ¬ writes r a l := by
      rintro ⟨h1, rfl, -⟩
      rw [fate_cons_of_none hrs] at hf
      simp [h0, h1] at hf
    rw [lastByte, if_neg hw]
    exact lastByte_of_fate l h0 hrs

/-! ### The abstract cache -/

/-- The line the SDRAM copy has replaced: from the second copy to `command_ack` the tag RAM still
    holds the old tag. -/
def System.swapped (s : System) (j : BitVec 9) : Prop :=
  (s.ctl = .copied ∨ s.ctl = .acked) ∧ j = lineIndex s.cache.refillAdr

instance (s : System) (j : BitVec 9) : Decidable (s.swapped j) := by
  unfold System.swapped; infer_instance

/-- The write-back cache a state stands for. Its memory is the SDRAM, with zeros behind the lines
    that are still resident from power-up, so that they count as backed. -/
def System.abs (s : System) : WriteBack (BitVec 12) (BitVec 9) Line where
  tag j := if s.swapped j then lineTag s.cache.refillAdr else (s.cache.cachetags.storage j).tag
  dirty j := if s.swapped j then false else (s.cache.cachetags.storage j).dirty
  line j := lineOf s.cache j
  mem t j := if t = 0#12 ∧ fate s.log j = none then fun _ _ => 0#8 else s.sdram (lineAdr t j)

/-- A line with the selected lanes of one word overwritten by a request. -/
def mergeLine (d : Line) (r : Wb) : Line := fun w l =>
  if w = cacheLindex (address r.adr) ∧ r.sel.getLsbD l = true then laneByte r.dat l else d w l

theorem lineIndex_lineAdr (t : BitVec 12) (j : BitVec 9) : lineIndex (lineAdr t j) = j := by
  exact BitVec.extractLsb'_append_eq_right

theorem lineTag_lineAdr (t : BitVec 12) (j : BitVec 9) : lineTag (lineAdr t j) = t := by
  exact BitVec.extractLsb'_append_eq_left

theorem lineOf_setLine (c : Cache) (j : BitVec 9) (d : Line) :
    lineOf (setLine c j d) = Function.update (lineOf c) j d := by
  funext j' w l
  have h1 : (cacheAdr j' w).extractLsb' 2 9 = j' := BitVec.extractLsb'_append_eq_left
  have h2 : (cacheAdr j' w).extractLsb' 0 2 = w := BitVec.extractLsb'_append_eq_right
  by_cases hj : j' = j
  · subst hj; simp [lineOf, setLine, h1, h2]
  · simp [lineOf, setLine, h1, hj]

/-- A sys_clk edge writes the cache RAMs only on an acknowledged write. -/
theorem lineOf_sysClk (c : Cache) (i : CacheIn) :
    lineOf (c.sysClk i) = if (c.out i).wbAckO = true ∧ i.wb.we = true then
      Function.update (lineOf c) (cacheIndex (address i.wb.adr))
        (mergeLine (lineOf c (cacheIndex (address i.wb.adr))) i.wb) else lineOf c := by
  funext j w l
  simp only [lineOf, Cache.sysClk, Dpram.clk0_storage, cacheAdr_inj, Bool.and_eq_true]
  by_cases h : (c.out i).wbAckO = true ∧ i.wb.we = true
  · rw [if_pos h]
    by_cases hj : j = cacheIndex (address i.wb.adr)
    · subst hj
      simp [h, mergeLine, lineOf, and_comm]
    · simp [hj, lineOf]
  · rw [if_neg h, if_neg (fun h' => h h'.1.1), lineOf]

theorem writes_iff (r : Wb) (a : BitVec 23) (l : Lane) : writes r a l ↔
    r.we = true ∧ (cacheIndex a = cacheIndex (address r.adr) ∧
      cacheTag (address r.adr) = cacheTag a) ∧
      cacheLindex a = cacheLindex (address r.adr) ∧ r.sel.getLsbD l = true := by
  constructor
  · rintro ⟨h1, rfl, h3⟩
    exact ⟨h1, ⟨rfl, rfl⟩, rfl, h3⟩
  · rintro ⟨h1, ⟨h2, h3⟩, h4, h5⟩
    exact ⟨h1, (address_ext h3.symm h2 h4).symm, h5⟩

/-- A request served on its resident line: a write stores the merged line. -/
def absorb (c : WriteBack (BitVec 12) (BitVec 9) Line) (r : Wb) :
    WriteBack (BitVec 12) (BitVec 9) Line :=
  if r.we then
    c.store (cacheIndex (address r.adr)) (mergeLine (c.line (cacheIndex (address r.adr))) r)
  else c

section Absorb

variable (c : WriteBack (BitVec 12) (BitVec 9) Line) (r : Wb)

theorem absorb_tag : (absorb c r).tag = c.tag := by
  rw [absorb]; split <;> rfl

theorem absorb_mem : (absorb c r).mem = c.mem := by
  rw [absorb]; split <;> rfl

theorem clean_absorb (h : c.Clean) : (absorb c r).Clean := by
  rw [absorb]
  split
  · exact WriteBack.clean_store _ _ _ h
  · exact h

/-- A served request changes the bytes it writes and no others. -/
theorem view_absorb (htag : c.tag (cacheIndex (address r.adr)) = cacheTag (address r.adr))
    (a : BitVec 23) (l : Lane) :
    (absorb c r).view (cacheTag a) (cacheIndex a) (cacheLindex a) l =
      if writes r a l then laneByte r.dat l
      else c.view (cacheTag a) (cacheIndex a) (cacheLindex a) l := by
  cases hwe : r.we with
  | false => simp [absorb, writes, hwe]
  | true =>
    simp only [absorb, hwe, if_true, writes_iff, true_and]
    rw [WriteBack.view_store, htag]
    by_cases h : cacheIndex a = cacheIndex (address r.adr) ∧ cacheTag (address r.adr) = cacheTag a
    · have hv : c.view (cacheTag a) (cacheIndex a) = c.line (cacheIndex a) := by
        simp [WriteBack.view, h.1, htag, h.2]
      rw [if_pos h, hv, h.1]
      simp [mergeLine, h.2]
    · rw [if_neg h, if_neg (fun h' => h h'.1)]

end Absorb

/-! ### What an edge does to the abstract cache -/

theorem out_cachetagsWe {c : Cache} {i : CacheIn} (h : (c.out i).wbAckO = false) :
    (c.out i).cachetagsWe = false := by
  revert h
  simp only [Cache.out]
  split <;> (try split) <;> (try split) <;> simp

/-- An edge without acknowledge that swaps no line in or out does not change the abstract cache. -/
theorem abs_sysClk_idle {s : System} {i : CacheIn} (hack : (s.cache.out i).wbAckO = false)
    (hsw : ∀ j, (s.sysClk i).swapped j ↔ s.swapped j)
    (hadr : (s.sysClk i).cache.refillAdr = s.cache.refillAdr ∨ s.ctl = .none) :
    (s.sysClk i).abs = s.abs := by
  have hline : lineOf (s.sysClk i).cache = lineOf s.cache := by
    simp [System.sysClk, lineOf_sysClk, hack]
  have htags : (s.sysClk i).cache.cachetags.storage = s.cache.cachetags.storage := by
    simp [System.sysClk, Cache.sysClk, Spram.clk, out_cachetagsWe hack]
  have hns : s.ctl = .none → ∀ j, ¬ s.swapped j := by
    rintro hc j ⟨h | h, -⟩ <;> simp [hc] at h
  ext1
  · funext j
    simp only [System.abs, hsw, htags]
    rcases hadr with h | h
    · rw [h]
    · rw [if_neg (hns h j), if_neg (hns h j)]
  · funext j
    simp only [System.abs, hsw, htags]
  · exact hline
  · simp [System.abs, System.sysClk, hack]

/-- The edge acknowledges a request whose line is resident: found there, or just copied in. -/
structure Serves (s : System) (i : CacheIn) : Prop where
  ack : (s.cache.out i).wbAckO = true
  ctl : (s.sysClk i).ctl = .none
  tag : s.abs.tag (cacheIndex (address i.wb.adr)) = cacheTag (address i.wb.adr)
  swapped : ∀ j, s.swapped j →
    j = cacheIndex (address i.wb.adr) ∧ (s.cache.out i).cachetagsWe = true
  write : i.wb.we = true → (s.cache.out i).cachetagsWe = true
  dirty : (s.cache.out i).cachetagsWe = true → (s.cache.out i).cachetagsWriteDirty = i.wb.we
  clean : i.wb.we = false → (s.cache.out i).cachetagsWe = true →
    s.abs.dirty (cacheIndex (address i.wb.adr)) = false

/-- The tag word of the request is rewritten, the others stay. -/
theorem Serves.storage {s : System} {i : CacheIn} (h : Serves s i) (j : BitVec 9) :
    (s.sysClk i).cache.cachetags.storage j =
      if (s.cache.out i).cachetagsWe = true ∧ j = cacheIndex (address i.wb.adr) then
        { tag := cacheTag (address i.wb.adr), dirty := i.wb.we }
      else s.cache.cachetags.storage j := by
  by_cases ht : (s.cache.out i).cachetagsWe = true
  · simp [System.sysClk, Cache.sysClk, Spram.clk, ht, h.dirty ht, Function.update_apply]
  · simp [System.sysClk, Cache.sysClk, Spram.clk, ht]

/-- A served read leaves the cache lines as they are, a served write stores the merged line. -/
theorem Serves.abs {s : System} {i : CacheIn} (h : Serves s i) :
    (s.sysClk i).abs = { absorb s.abs i.wb with mem := (s.sysClk i).abs.mem } := by
  have hns : ∀ j, ¬ (s.sysClk i).swapped j := by
    rintro j ⟨h' | h', -⟩ <;> simp [h.ctl] at h'
  have hline : (s.sysClk i).abs.line = if i.wb.we = true then Function.update s.abs.line
      (cacheIndex (address i.wb.adr))
      (mergeLine (s.abs.line (cacheIndex (address i.wb.adr))) i.wb) else s.abs.line := by
    have hl := lineOf_sysClk s.cache i
    simp only [h.ack, true_and] at hl
    exact hl
  -- away from the index of the request neither the tag word nor the swap flag matters
  have hoff : ∀ j, j ≠ cacheIndex (address i.wb.adr) → ¬ s.swapped j :=
    fun j hj h' => hj (h.swapped j h').1
  have htag' : (s.sysClk i).abs.tag = s.abs.tag := by
    funext j
    simp only [System.abs, if_neg (hns j), h.storage]
    by_cases hj : j = cacheIndex (address i.wb.adr)
    · subst hj
      by_cases ht : (s.cache.out i).cachetagsWe = true
      · rw [if_pos ⟨ht, rfl⟩]; exact h.tag.symm
      · have hn : ¬ s.swapped (cacheIndex (address i.wb.adr)) := fun h' => ht (h.swapped _ h').2
        rw [if_neg (fun h' => ht h'.1), if_neg hn]
    · rw [if_neg (fun h' => hj h'.2), if_neg (hoff j hj)]
  have hdirty' : (s.sysClk i).abs.dirty = if i.wb.we = true then Function.update s.abs.dirty
      (cacheIndex (address i.wb.adr)) true else s.abs.dirty := by
    funext j
    simp only [System.abs, if_neg (hns j), h.storage]
    by_cases hj : j = cacheIndex (address i.wb.adr)
    · subst hj
      cases hw : i.wb.we with
      | true => simp [h.write hw]
      | false =>
        by_cases ht : (s.cache.out i).cachetagsWe = true
        · simpa [System.abs, ht] using h.clean hw ht
        · have hn : ¬ s.swapped (cacheIndex (address i.wb.adr)) := fun h' => ht (h.swapped _ h').2
          simp [ht, hn]
    · cases hw : i.wb.we <;> simp [hj, hoff j hj]
  rw [absorb]
  ext1
  · rw [htag']; cases i.wb.we <;> rfl
  · rw [hdirty']; cases i.wb.we <;> rfl
  · rw [hline]; cases i.wb.we <;> rfl
  · rfl

/-- The controller's first copy is an eviction. -/
theorem abs_serve_evict {s : System} {t : BitVec 12} {j : BitVec 9} (hc : s.ctl = .evict)
    (ht : (s.cache.cachetags.storage j).tag = t) (hadr : s.cache.evictAdr = lineAdr t j)
    (hf : fate s.log j ≠ none) : s.serve.abs = s.abs.evict j := by
  have hns : ∀ k, ¬ s.swapped k := by rintro k ⟨h | h, -⟩ <;> simp [hc] at h
  have hns' : ∀ k, ¬ s.serve.swapped k := by rintro k ⟨h | h, -⟩ <;> simp [System.serve, hc] at h
  ext1
  · funext k
    simp only [System.abs, WriteBack.evict, if_neg (hns k), if_neg (hns' k)]
    simp [System.serve, hc]
  · funext k
    simp only [System.abs, WriteBack.evict, if_neg (hns k), if_neg (hns' k)]
    simp [System.serve, hc]
  · funext k
    simp [System.abs, WriteBack.evict, System.serve, hc]
  · funext t' k
    rw [WriteBack.mem_evict]
    simp only [System.abs, if_neg (hns j), ht]
    by_cases hk : t' = t ∧ k = j
    · obtain ⟨rfl, rfl⟩ := hk
      simp [System.serve, hc, hadr, hf, lineIndex_lineAdr]
    · simp [System.serve, hc, hadr, lineAdr_inj, hk]

/-- The controller's second copy is a replacement. -/
theorem abs_serve_refill {s : System} {t : BitVec 12} {j : BitVec 9} (hc : s.ctl = .refill)
    (hadr : s.cache.refillAdr = lineAdr t j) (hf : ¬ (t = 0#12 ∧ fate s.log j = none)) :
    s.serve.abs = s.abs.replace t j := by
  have hns : ∀ k, ¬ s.swapped k := by rintro k ⟨h | h, -⟩ <;> simp [hc] at h
  have hsw : ∀ k, s.serve.swapped k ↔ k = j := by
    intro k
    simp [System.swapped, System.serve, hc, setLine, hadr, lineIndex_lineAdr]
  ext1
  · funext k
    simp only [System.abs, WriteBack.replace, if_neg (hns _), hsw, Function.update_apply]
    simp [System.serve, hc, setLine, hadr, lineTag_lineAdr]
  · funext k
    simp only [System.abs, WriteBack.replace, if_neg (hns _), hsw, Function.update_apply]
    simp [System.serve, hc, setLine]
  · simp only [System.abs, WriteBack.replace, if_neg hf]
    simp [System.serve, hc, hadr, lineIndex_lineAdr, lineOf_setLine]
  · funext t' k
    simp [System.abs, WriteBack.replace, System.serve, hc]

end DsdOrsoc.Yadmc.Flat
