import DsdOrsoc.Yadmc.FlatMemory

/-! The coherence invariant of the cache front end, and with it the flat memory: in every run an
    acknowledged read returns the most recently acknowledged write.

        shows      the abstract cache shows, byte for byte, what the acknowledged requests wrote
        clean      a line without the dirty bit equals its copy in the memory behind it
        untouched  a line that no request has touched is as it was at power-up
        phase      what IDLE, CHECK_HIT and WAIT_ACK say about request, command and `sync_ack`   -/

namespace DsdOrsoc.Yadmc.Flat
open Schemes

/-! ### The coherence invariant -/

/-- The registered read ports show the word of the request. -/
def Fresh (c : Cache) (r : Wb) : Prop :=
  ∀ l, c.wbDatO l = lineOf c (cacheIndex (address r.adr)) (cacheLindex (address r.adr)) l

/-- No request is in progress. -/
structure Idle (s : System) : Prop where
  req : s.req = none
  ctl : s.ctl = .none
  quiet : s.syncAck.Quiet

/-- The request `r` is being compared with the tag read for it. -/
structure Checking (s : System) (r : Wb) : Prop where
  req : s.req = some r
  ctl : s.ctl = .none
  quiet : s.syncAck.Quiet
  tag : s.cache.cachetags.dout = s.cache.cachetags.storage (cacheIndex (address r.adr))
  fresh : Fresh s.cache r

/-- The request `r` waits for its command. -/
structure Waiting (s : System) (r : Wb) : Prop where
  req : s.req = some r
  ctl : s.ctl ≠ .none
  miss : (s.cache.cachetags.storage (cacheIndex (address r.adr))).tag ≠ cacheTag (address r.adr)
  refillAdr : s.cache.refillAdr =
    lineAdr (cacheTag (address r.adr)) (cacheIndex (address r.adr))
  evictAdr : s.cache.evictAdr =
    lineAdr (s.cache.cachetags.storage (cacheIndex (address r.adr))).tag
      (cacheIndex (address r.adr))
  dirty : s.ctl = .evict → (s.cache.cachetags.storage (cacheIndex (address r.adr))).dirty = true
  backed : s.ctl = .refill → s.abs.Backed (cacheIndex (address r.adr))
  quiet : s.ctl ≠ .acked → s.syncAck.Quiet
  busy : s.ctl = .acked → s.syncAck.Busy
  fresh : s.ctl = .acked → s.syncAck.sync0 = s.syncAck.toggle → Fresh s.cache r

/-- What the FSM state says about the rest of the system. -/
def Phase (s : System) : Prop :=
  match s.cache.state with
  | .idle => Idle s
  | .checkHit => ∃ r, Checking s r
  | .waitAck => ∃ r, Waiting s r

/-- COHERENCE: the abstract cache shows the expected bytes and its clean lines are backed; a line
    untouched since power-up has its power-up tag word and its SDRAM content. -/
structure Coherent (mem : LineAdr → Line) (s : System) : Prop where
  shows : ∀ a l, s.abs.view (cacheTag a) (cacheIndex a) (cacheLindex a) l = expected mem s.log a l
  clean : s.abs.Clean
  untouched : ∀ j, fate s.log j = none →
    s.cache.cachetags.storage j = { tag := 0#12, dirty := false } ∧
    s.sdram (lineAdr 0#12 j) = mem (lineAdr 0#12 j)

/-- The invariant of every run. -/
structure Inv (mem : LineAdr → Line) (s : System) : Prop where
  coherent : Coherent mem s
  phase : Phase s

theorem fresh_sysClk (c : Cache) (i : CacheIn) : Fresh (c.sysClk i) i.wb :=
  fun _ => Dpram.clk0_do0 _ _ _ _

theorem dout_sysClk {c : Cache} {i : CacheIn} (h : (c.out i).wbAckO = false) :
    (c.sysClk i).cachetags.dout =
      (c.sysClk i).cachetags.storage (cacheIndex (address i.wb.adr)) := by
  simp [Cache.sysClk, Spram.clk, out_cachetagsWe h]

theorem not_swapped_of_none {s : System} (h : s.ctl = .none) (j : BitVec 9) : ¬ s.swapped j := by
  rintro ⟨h' | h', -⟩ <;> simp [h] at h'

theorem inv_start {mem : LineAdr → Line} {s : System} (h : (flat mem).start s) : Inv mem s := by
  obtain ⟨hst, hram, htags, hq, rfl, hctl, hreq, hlog⟩ := h
  have hns := not_swapped_of_none hctl
  have hline : ∀ j, lineOf s.cache j = fun _ _ => 0#8 := fun j => funext₂ fun w l => hram l _
  refine ⟨⟨fun a l => ?_, fun j _ => ?_, fun j _ => ⟨htags j, rfl⟩⟩, ?_⟩
  · simp only [WriteBack.view, System.abs, if_neg (hns _), htags, hline, hlog, expected, lastByte,
      powerUpByte, Option.getD_none, fate, and_true, ne_eq, reduceCtorEq, not_false_eq_true]
    by_cases h : cacheTag a = 0#12
    · rw [if_pos h.symm, if_pos h]
    · rw [if_neg (Ne.symm h), if_neg h, if_neg h]
  · simp [WriteBack.Backed, System.abs, if_neg (hns _), htags, hline, hlog, fate]
  · rw [Phase, hst]
    exact ⟨hreq, hctl, hq⟩

/-! ### Coherence is kept -/

section Keep

variable {mem : LineAdr → Line} {s : System} {i : CacheIn}

theorem Serves.abs_tag (h : Serves s i) : (s.sysClk i).abs.tag = s.abs.tag := by
  rw [h.abs]; exact absorb_tag s.abs i.wb

/-- Behind a line touched for the first time the SDRAM content appears. -/
theorem Serves.backing (h : Serves s i) (hc : Coherent mem s) (t : BitVec 12) (k : BitVec 9) :
    (s.sysClk i).abs.mem t k =
      if t = 0#12 ∧ fate s.log k = none ∧ fate (i.wb :: s.log) k ≠ none then mem (lineAdr 0#12 k)
      else s.abs.mem t k := by
  have hlog : (s.sysClk i).log = i.wb :: s.log := by simp [System.sysClk, h.ack]
  have hsd : (s.sysClk i).sdram = s.sdram := rfl
  simp only [System.abs, hlog, hsd]
  by_cases ht : t = 0#12
  · subst ht
    cases hf : fate s.log k with
    | some b => simp [fate_cons_of_some hf]
    | none =>
      have hm := (hc.untouched k hf).2
      cases hf' : fate (i.wb :: s.log) k <;> simp [hm]
  · simp only [ht, false_and, if_false]

/-- The request of a first touch is at the touched index. -/
theorem index_of_fate {r : Wb} {log : List Wb} {k : BitVec 9} (h : fate log k = none)
    (h' : fate (r :: log) k ≠ none) : cacheIndex (address r.adr) = k := by
  by_contra hk
  rw [fate_cons_of_none h, if_pos hk] at h'
  exact h' rfl

theorem Serves.shows (h : Serves s i) (hc : Coherent mem s) (a : BitVec 23) (l : Lane) :
    (s.sysClk i).abs.view (cacheTag a) (cacheIndex a) (cacheLindex a) l =
      expected mem (i.wb :: s.log) a l := by
  have hres : s.abs.tag (cacheIndex a) = cacheTag a ∨
      (s.sysClk i).abs.mem (cacheTag a) (cacheIndex a) = s.abs.mem (cacheTag a) (cacheIndex a) →
      (s.sysClk i).abs.view (cacheTag a) (cacheIndex a) (cacheLindex a) l =
        if writes i.wb a l then laneByte i.wb.dat l else expected mem s.log a l := by
    intro hm
    rw [← hc.shows, ← view_absorb _ _ h.tag, h.abs, WriteBack.view_with_mem]
    rwa [absorb_tag, absorb_mem]
  by_cases hch : cacheTag a = 0#12 ∧ fate s.log (cacheIndex a) = none ∧
      fate (i.wb :: s.log) (cacheIndex a) ≠ none
  · obtain ⟨h0, hf, hf'⟩ := hch
    have hidx := index_of_fate hf hf'
    have hlast := lastByte_of_fate l h0 hf
    have htag := h.tag
    rw [hidx] at htag
    by_cases hr : cacheTag (address i.wb.adr) = 0#12
    · -- a write to the line itself: the zeros around it stay
      rw [hres (.inl (by rw [htag, hr, h0]))]
      have hft : fate (i.wb :: s.log) (cacheIndex a) ≠ some false := by
        rw [fate_cons_of_none hf]
        simp [hidx, hr]
      simp only [expected, lastByte, hlast, powerUpByte, h0, hf, Option.getD_none]
      simp [hft]
      split <;> rfl
    · -- another line takes the place of the zeros
      have hn : ¬ writes i.wb a l := by
        rintro ⟨-, rfl, -⟩
        exact hr h0
      have hft : fate (i.wb :: s.log) (cacheIndex a) = some false := by
        rw [fate_cons_of_none hf]
        simp [hidx, hr]
      have hm := h.backing hc (cacheTag a) (cacheIndex a)
      rw [if_pos ⟨h0, hf, hf'⟩] at hm
      have hnr : (s.sysClk i).abs.tag (cacheIndex a) ≠ cacheTag a := by
        rw [h.abs_tag, htag, h0]; exact hr
      rw [WriteBack.view, if_neg hnr, hm, expected, lastByte, if_neg hn, hlast, Option.getD_none,
        powerUpByte, if_neg (fun h' => h'.2 hft), h0]
  · have hm := h.backing hc (cacheTag a) (cacheIndex a)
    rw [if_neg hch] at hm
    rw [hres (.inr hm), expected_cons]
    intro h0
    cases hf : fate s.log (cacheIndex a) with
    | some b => exact fate_cons_of_some hf
    | none => by_contra hn; exact hch ⟨h0, hf, hn⟩

theorem Serves.abs_clean (h : Serves s i) (hc : Coherent mem s) : (s.sysClk i).abs.Clean := by
  intro j hj
  have hm : (s.sysClk i).abs.mem ((s.sysClk i).abs.tag j) j = s.abs.mem (s.abs.tag j) j := by
    rw [h.abs_tag, h.backing hc, if_neg]
    rintro ⟨h0, hf, hf'⟩
    -- a first touch of a resident line of tag 0 is a write, which makes it dirty
    have hidx := index_of_fate hf hf'
    have htag := h.tag
    rw [hidx, h0] at htag
    rw [fate_cons_of_none hf] at hf'
    have hw : i.wb.we = true := by simpa [hidx, ← htag] using hf'
    rw [h.abs, absorb, hw] at hj
    simp [WriteBack.store, hidx] at hj
  have hb : (absorb s.abs i.wb).Backed j :=
    clean_absorb _ _ hc.clean j (by rw [h.abs] at hj; exact hj)
  rw [WriteBack.Backed, absorb_tag, absorb_mem] at hb
  rw [WriteBack.Backed, hm, h.abs]
  exact hb

theorem Serves.coherent (h : Serves s i) (hc : Coherent mem s) : Coherent mem (s.sysClk i) := by
  have hlog : (s.sysClk i).log = i.wb :: s.log := by simp [System.sysClk, h.ack]
  refine ⟨fun a l => by rw [hlog]; exact h.shows hc a l, h.abs_clean hc, fun j hj => ?_⟩
  rw [hlog] at hj
  have hf : fate s.log j = none := by
    cases hf : fate s.log j with
    | none => rfl
    | some b => rw [fate_cons_of_some hf] at hj; cases hj
  refine ⟨?_, (hc.untouched j hf).2⟩
  rw [h.storage]
  split
  · rename_i hw
    obtain ⟨-, rfl⟩ := hw
    rw [fate_cons_of_none hf] at hj
    simp only [ne_eq, not_true_eq_false, if_false] at hj
    by_cases h0 : cacheTag (address i.wb.adr) = 0#12
    · cases hw : i.wb.we with
      | true => simp [h0, hw] at hj
      | false => rw [h0]
    · simp [h0] at hj
  · exact (hc.untouched j hf).1

/-- An edge without acknowledge changes nothing that coherence speaks of. -/
theorem coherent_sysClk_idle (hc : Coherent mem s) (hack : (s.cache.out i).wbAckO = false)
    (habs : (s.sysClk i).abs = s.abs) : Coherent mem (s.sysClk i) := by
  have hlog : (s.sysClk i).log = s.log := by simp [System.sysClk, hack]
  refine ⟨fun a l => by rw [habs, hlog]; exact hc.shows a l, by rw [habs]; exact hc.clean, ?_⟩
  intro j hj
  rw [hlog] at hj
  refine ⟨?_, (hc.untouched j hj).2⟩
  rw [← (hc.untouched j hj).1]
  simp [System.sysClk, Cache.sysClk, Spram.clk, out_cachetagsWe hack]

end Keep

/-! ### One edge keeps the invariant -/

section Step

variable {mem : LineAdr → Line} {s : System}

theorem inv_idle (hi : Inv mem s) (hst : s.cache.state = .idle) (wb : Wb) (cyc stb : Bool) :
    Inv mem (s.sysClk (s.cacheIn wb cyc stb)) := by
  have hp : Idle s := by simpa [Phase, hst] using hi.phase
  have hf : s.syncAck.flago = false := hp.quiet.flago
  have ho : s.cache.out (s.cacheIn wb cyc stb) =
      { nextState := if cyc && stb then .checkHit else .idle } := by
    simp [Cache.out, hst]
  have hctl : (s.sysClk (s.cacheIn wb cyc stb)).ctl = .none := by
    simp [System.sysClk, System.nextCtl, ho, hf, hp.ctl]
  have hack : (s.cache.out (s.cacheIn wb cyc stb)).wbAckO = false := by rw [ho]
  refine ⟨coherent_sysClk_idle hi.coherent hack
    (abs_sysClk_idle hack (fun j => ?_) (.inr hp.ctl)), ?_⟩
  · exact iff_of_false (not_swapped_of_none hctl j) (not_swapped_of_none hp.ctl j)
  · have hq : (s.sysClk (s.cacheIn wb cyc stb)).syncAck.Quiet := hp.quiet.clk1
    have hst' : (s.sysClk (s.cacheIn wb cyc stb)).cache.state =
        if cyc && stb then .checkHit else .idle := by
      simp [System.sysClk, Cache.sysClk, ho]
    rw [Phase, hst']
    cases hcs : cyc && stb with
    | true =>
      refine ⟨wb, ?_, hctl, hq, dout_sysClk hack, fresh_sysClk _ _⟩
      simp [System.sysClk, hack, hp.req, hcs]
    | false =>
      refine ⟨?_, hctl, hq⟩
      simp [System.sysClk, hack, hp.req, hcs]

theorem storage_keep {i : CacheIn} (hack : (s.cache.out i).wbAckO = false) :
    (s.sysClk i).cache.cachetags.storage = s.cache.cachetags.storage := by
  simp [System.sysClk, Cache.sysClk, Spram.clk, out_cachetagsWe hack]

theorem req_keep {i : CacheIn} {r : Wb} (hreq : s.req = some r)
    (hack : (s.cache.out i).wbAckO = false) : (s.sysClk i).req = some r := by
  simp [System.sysClk, hack, hreq]

/-- A served request leaves the system idle. -/
theorem inv_serves {i : CacheIn} (hi : Inv mem s) (h : Serves s i)
    (hst : (s.cache.out i).nextState = .idle) (hq : s.syncAck.clk1.Quiet) :
    Inv mem (s.sysClk i) := by
  have hst' : (s.sysClk i).cache.state = .idle := hst
  refine ⟨h.coherent hi.coherent, ?_⟩
  rw [Phase, hst']
  exact ⟨by simp [System.sysClk, h.ack], h.ctl, hq⟩

theorem inv_hit (hi : Inv mem s) (hst : s.cache.state = .checkHit) {r : Wb} (hp : Checking s r)
    {cyc stb : Bool} (hhit : s.cache.cacheHit (s.cacheIn r cyc stb) = true) :
    Inv mem (s.sysClk (s.cacheIn r cyc stb)) := by
  have hns := not_swapped_of_none hp.ctl
  have ho : s.cache.out (s.cacheIn r cyc stb) =
      { nextState := .idle, wbAckO := true, cachetagsWe := r.we, cachetagsWriteDirty := true } := by
    simp [Cache.out, hst, hhit]
  have htag : (s.cache.cachetags.storage (cacheIndex (address r.adr))).tag =
      cacheTag (address r.adr) := by
    simpa [Cache.cacheHit, hp.tag] using hhit
  refine inv_serves hi ⟨?_, ?_, ?_, fun j hj => absurd hj (hns j), ?_, ?_, ?_⟩ (by rw [ho])
    hp.quiet.clk1
  · rw [ho]
  · simp [System.sysClk, System.nextCtl, ho, hp.quiet.flago, hp.ctl]
  · rw [System.cacheIn_wb, System.abs]
    simp only [if_neg (hns _)]
    exact htag
  · rw [ho]; exact id
  · rw [ho]; exact Eq.symm
  · rw [ho]; intro h1 h2; simp_all

theorem inv_miss (hi : Inv mem s) (hst : s.cache.state = .checkHit) {r : Wb} (hp : Checking s r)
    {cyc stb : Bool} (hmiss : s.cache.cacheHit (s.cacheIn r cyc stb) = false) :
    Inv mem (s.sysClk (s.cacheIn r cyc stb)) := by
  have hns := not_swapped_of_none hp.ctl
  have ho : s.cache.out (s.cacheIn r cyc stb) =
      { nextState := .waitAck
        commandEvict := s.cache.cacheIsDirty
        commandRefill := !s.cache.cacheIsDirty } := by
    cases hd : s.cache.cacheIsDirty <;> simp [Cache.out, hst, hmiss, hd]
  have hack : (s.cache.out (s.cacheIn r cyc stb)).wbAckO = false := by rw [ho]
  have hctl : (s.sysClk (s.cacheIn r cyc stb)).ctl =
      if s.cache.cacheIsDirty then .evict else .refill := by
    cases hd : s.cache.cacheIsDirty <;> simp [System.sysClk, System.nextCtl, ho, hd]
  have hns' : ∀ j, ¬ (s.sysClk (s.cacheIn r cyc stb)).swapped j := by
    rintro j ⟨h | h, -⟩ <;> rw [hctl] at h <;> split at h <;> cases h
  have habs : (s.sysClk (s.cacheIn r cyc stb)).abs = s.abs :=
    abs_sysClk_idle hack (fun j => iff_of_false (hns' j) (hns j)) (.inr hp.ctl)
  refine ⟨coherent_sysClk_idle hi.coherent hack habs, ?_⟩
  have hst' : (s.sysClk (s.cacheIn r cyc stb)).cache.state = .waitAck := by
    simp [System.sysClk, Cache.sysClk, ho]
  have hcmd : (s.cache.cacheIsDirty || !s.cache.cacheIsDirty) = true := by simp
  have hna : (s.sysClk (s.cacheIn r cyc stb)).ctl ≠ .acked := by rw [hctl]; split <;> simp
  rw [Phase, hst']
  refine ⟨r, req_keep hp.req hack, ?_, ?_, ?_, ?_, ?_, ?_, fun _ => hp.quiet.clk1,
    fun h => absurd h hna, fun h => absurd h hna⟩
  · rw [hctl]; split <;> simp
  · rw [storage_keep hack]
    simpa [Cache.cacheHit, hp.tag] using hmiss
  · simp [System.sysClk, Cache.sysClk, ho, hcmd]
  · rw [storage_keep hack]
    simp [System.sysClk, Cache.sysClk, ho, hcmd, hp.tag]
  · intro h
    rw [hctl] at h
    rw [storage_keep hack, ← hp.tag]
    by_contra hd
    simp [Cache.cacheIsDirty, hd] at h
  · -- a clean line needs no copy: it is backed already
    intro h
    rw [habs]
    refine hi.coherent.clean _ ?_
    simp only [System.abs, if_neg (hns _), ← hp.tag]
    by_contra hd
    rw [hctl] at h
    simp [Cache.cacheIsDirty, hd] at h

/-- The acknowledge arrives: the line of the request has been copied in and read since. -/
theorem inv_ack (hi : Inv mem s) (hst : s.cache.state = .waitAck) {r : Wb} (hp : Waiting s r)
    {cyc stb : Bool} (hf : s.syncAck.flago = true) : Inv mem (s.sysClk (s.cacheIn r cyc stb)) := by
  have hctl : s.ctl = .acked := by
    by_contra h
    rw [(hp.quiet h).flago] at hf
    cases hf
  have ho : s.cache.out (s.cacheIn r cyc stb) =
      { nextState := .idle, wbAckO := true, cachetagsWe := true, cachetagsWriteDirty := r.we } := by
    simp [Cache.out, hst, hf]
  have hsw : s.swapped (cacheIndex (address r.adr)) :=
    ⟨.inr hctl, by rw [hp.refillAdr, lineIndex_lineAdr]⟩
  refine inv_serves hi ⟨?_, ?_, ?_, fun j hj => ⟨?_, by rw [ho]⟩, ?_, ?_, fun _ _ => ?_⟩
    (by rw [ho]) ((hp.busy hctl).clk1_done hf)
  · rw [ho]
  · simp [System.sysClk, System.nextCtl, ho, hf]
  · simp [System.abs, hsw, hp.refillAdr, lineTag_lineAdr]
  · rw [hj.2, hp.refillAdr, lineIndex_lineAdr]; rfl
  · rw [ho]; exact fun _ => rfl
  · rw [ho]; exact fun _ => rfl
  · simp [System.abs, hsw]

theorem inv_wait (hi : Inv mem s) (hst : s.cache.state = .waitAck) {r : Wb} (hp : Waiting s r)
    {cyc stb : Bool} (hf : s.syncAck.flago = false) : Inv mem (s.sysClk (s.cacheIn r cyc stb)) := by
  have ho : s.cache.out (s.cacheIn r cyc stb) = { nextState := .waitAck } := by
    simp [Cache.out, hst, hf]
  have hack : (s.cache.out (s.cacheIn r cyc stb)).wbAckO = false := by rw [ho]
  have hctl : (s.sysClk (s.cacheIn r cyc stb)).ctl = s.ctl := by
    simp [System.sysClk, System.nextCtl, ho, hf]
  have hre : (s.sysClk (s.cacheIn r cyc stb)).cache.refillAdr = s.cache.refillAdr := by
    simp [System.sysClk, Cache.sysClk, ho]
  have habs : (s.sysClk (s.cacheIn r cyc stb)).abs = s.abs :=
    abs_sysClk_idle hack (fun j => by rw [System.swapped, System.swapped, hctl, hre]) (.inl hre)
  have hst' : (s.sysClk (s.cacheIn r cyc stb)).cache.state = .waitAck := by
    simp [System.sysClk, Cache.sysClk, ho]
  refine ⟨coherent_sysClk_idle hi.coherent hack habs, ?_⟩
  rw [Phase, hst']
  refine ⟨r, req_keep hp.req hack, ?_, ?_, ?_, ?_, ?_, ?_, ?_, ?_, fun _ _ => fresh_sysClk _ _⟩
  · rw [hctl]; exact hp.ctl
  · rw [storage_keep hack]; exact hp.miss
  · rw [hre]; exact hp.refillAdr
  · rw [storage_keep hack, ← hp.evictAdr]
    simp [System.sysClk, Cache.sysClk, ho]
  · rw [hctl, storage_keep hack]; exact hp.dirty
  · rw [hctl, habs]; exact hp.backed
  · rw [hctl]; exact fun h => (hp.quiet h).clk1
  · rw [hctl]; exact fun h => (hp.busy h).clk1_busy hf

theorem inv_serve_evict (hi : Inv mem s) (hst : s.cache.state = .waitAck) {r : Wb}
    (hp : Waiting s r) (hc : s.ctl = .evict) : Inv mem s.serve := by
  have hfate : fate s.log (cacheIndex (address r.adr)) ≠ none := by
    intro h
    have hd := hp.dirty hc
    rw [(hi.coherent.untouched _ h).1] at hd
    cases hd
  have habs := abs_serve_evict hc rfl hp.evictAdr hfate
  have hse : s.serve = { s with
      sdram := Function.update s.sdram s.cache.evictAdr
        (lineOf s.cache (lineIndex s.cache.evictAdr))
      ctl := .refill } := by
    simp only [System.serve, hc]
  refine ⟨⟨?_, ?_, fun j hj => ?_⟩, ?_⟩
  · rw [habs, WriteBack.view_evict, hse]; exact hi.coherent.shows
  · rw [habs]; exact WriteBack.clean_evict _ _ hi.coherent.clean
  · rw [hse] at hj ⊢
    refine ⟨(hi.coherent.untouched j hj).1, ?_⟩
    rw [← (hi.coherent.untouched j hj).2]
    refine Function.update_of_ne (fun h => hfate ?_) _ _
    rw [hp.evictAdr, lineAdr_inj] at h
    rw [← h.2]; exact hj
  · have hb : s.serve.abs.Backed (cacheIndex (address r.adr)) := by
      rw [habs]; exact WriteBack.backed_evict _ _ _ (.inl rfl)
    rw [hse] at hb ⊢
    rw [Phase]
    simp only [hst]
    exact ⟨r, hp.req, by simp, hp.miss, hp.refillAdr, hp.evictAdr, by simp, fun _ => hb,
      fun _ => hp.quiet (by simp [hc]), by simp, by simp⟩

theorem inv_serve_refill (hi : Inv mem s) (hst : s.cache.state = .waitAck) {r : Wb}
    (hp : Waiting s r) (hc : s.ctl = .refill) : Inv mem s.serve := by
  have hfate : ¬ (cacheTag (address r.adr) = 0#12 ∧
      fate s.log (cacheIndex (address r.adr)) = none) := by
    rintro ⟨h0, hf⟩
    refine hp.miss ?_
    rw [(hi.coherent.untouched _ hf).1, h0]
  have habs := abs_serve_refill hc hp.refillAdr hfate
  have hse : s.serve = { s with
      cache := setLine s.cache (lineIndex s.cache.refillAdr) (s.sdram s.cache.refillAdr)
      ctl := .copied } := by
    simp only [System.serve, hc]
  refine ⟨⟨?_, ?_, ?_⟩, ?_⟩
  · rw [habs, WriteBack.view_replace _ _ _ (hp.backed hc), hse]; exact hi.coherent.shows
  · rw [habs]; exact WriteBack.clean_replace _ _ _ hi.coherent.clean
  · rw [hse]; exact hi.coherent.untouched
  · rw [hse, Phase]
    simp only [setLine, hst]
    exact ⟨r, hp.req, by simp, hp.miss, hp.refillAdr, hp.evictAdr, by simp, by simp,
      fun _ => hp.quiet (by simp [hc]), by simp, by simp⟩

theorem inv_serve_flag (hi : Inv mem s) (hst : s.cache.state = .waitAck) {r : Wb}
    (hp : Waiting s r) (hc : s.ctl = .copied) : Inv mem s.serve := by
  have hq := hp.quiet (by simp [hc])
  have hse : s.serve = { s with syncAck := s.syncAck.clk0 true, ctl := .acked } := by
    simp only [System.serve, hc]
  have habs : s.serve.abs = s.abs := by
    rw [hse]
    simp [System.abs, System.swapped, hc]
  refine ⟨⟨?_, ?_, ?_⟩, ?_⟩
  · rw [habs, hse]; exact hi.coherent.shows
  · rw [habs]; exact hi.coherent.clean
  · rw [hse]; exact hi.coherent.untouched
  · rw [hse, Phase]
    simp only [hst]
    refine ⟨r, hp.req, by simp, hp.miss, hp.refillAdr, hp.evictAdr, by simp, by simp, by simp,
      fun _ => hq.send, fun _ h => ?_⟩
    -- the level has just changed, so the first flip-flop cannot hold it yet
    simp [Sync.clk0, hq.1] at h

/-- STEP: every edge and every move of the controller keeps the invariant. -/
theorem inv_step (hi : Inv mem s) {e : Edge} (hl : s.legal e) : Inv mem (s.step e) := by
  have hwait : s.ctl ≠ .none → s.cache.state = .waitAck := by
    intro h
    have hp := hi.phase
    rw [Phase] at hp
    cases hst : s.cache.state with
    | idle => rw [hst] at hp; exact absurd hp.ctl h
    | checkHit => rw [hst] at hp; obtain ⟨r, hp⟩ := hp; exact absurd hp.ctl h
    | waitAck => rfl
  cases e with
  | sys wb cyc stb =>
    cases hst : s.cache.state with
    | idle => exact inv_idle hi hst wb cyc stb
    | checkHit =>
      obtain ⟨r, hp⟩ : ∃ r, Checking s r := by simpa [Phase, hst] using hi.phase
      obtain rfl := hl r hp.req
      cases hh : s.cache.cacheHit (s.cacheIn wb cyc stb) with
      | true => exact inv_hit hi hst hp hh
      | false => exact inv_miss hi hst hp hh
    | waitAck =>
      obtain ⟨r, hp⟩ : ∃ r, Waiting s r := by simpa [Phase, hst] using hi.phase
      obtain rfl := hl r hp.req
      cases hf : s.syncAck.flago with
      | true => exact inv_ack hi hst hp hf
      | false => exact inv_wait hi hst hp hf
  | ctl =>
    cases hc : s.ctl with
    | none => simpa [System.step, System.serve, hc] using hi
    | acked => simpa [System.step, System.serve, hc] using hi
    | evict =>
      have hst := hwait (by simp [hc])
      obtain ⟨r, hp⟩ : ∃ r, Waiting s r := by simpa [Phase, hst] using hi.phase
      exact inv_serve_evict hi hst hp hc
    | refill =>
      have hst := hwait (by simp [hc])
      obtain ⟨r, hp⟩ : ∃ r, Waiting s r := by simpa [Phase, hst] using hi.phase
      exact inv_serve_refill hi hst hp hc
    | copied =>
      have hst := hwait (by simp [hc])
      obtain ⟨r, hp⟩ : ∃ r, Waiting s r := by simpa [Phase, hst] using hi.phase
      exact inv_serve_flag hi hst hp hc

end Step

/-- RUN: the invariant holds in every reachable state. -/
theorem inv_reachable {mem : LineAdr → Line} {s : System} (hs : (flat mem).Reachable s) :
    Inv mem s :=
  hs.invariant (fun _ h => inv_start h) (fun _ _ hi hl => inv_step hi hl)

/-! ### Flat memory -/

/-- In an acknowledge cycle the read ports show the word of the request, and its line is
    resident. -/
theorem ack_shows {mem : LineAdr → Line} {s : System} (hi : Inv mem s) {wb : Wb} {cyc stb : Bool}
    (hl : s.legal (.sys wb cyc stb)) (hack : (s.cache.out (s.cacheIn wb cyc stb)).wbAckO = true) :
    Fresh s.cache wb ∧
      s.abs.tag (cacheIndex (address wb.adr)) = cacheTag (address wb.adr) := by
  cases hst : s.cache.state with
  | idle => simp [Cache.out, hst] at hack
  | checkHit =>
    obtain ⟨r, hp⟩ : ∃ r, Checking s r := by simpa [Phase, hst] using hi.phase
    obtain rfl := hl r hp.req
    have hhit : s.cache.cacheHit (s.cacheIn wb cyc stb) = true := by
      by_contra h
      rw [Bool.not_eq_true] at h
      cases hd : s.cache.cacheIsDirty <;> simp [Cache.out, hst, h, hd] at hack
    refine ⟨hp.fresh, ?_⟩
    simp only [System.abs, if_neg (not_swapped_of_none hp.ctl _), ← hp.tag]
    exact of_decide_eq_true hhit
  | waitAck =>
    obtain ⟨r, hp⟩ : ∃ r, Waiting s r := by simpa [Phase, hst] using hi.phase
    obtain rfl := hl r hp.req
    have hf : s.syncAck.flago = true := by
      by_contra h
      simp [Cache.out, hst, h] at hack
    have hctl : s.ctl = .acked := by
      by_contra h
      rw [(hp.quiet h).flago] at hf
      cases hf
    have hb := hp.busy hctl
    refine ⟨hp.fresh hctl (hb.2 (hb.flago.1 hf)), ?_⟩
    have hsw : s.swapped (cacheIndex (address wb.adr)) :=
      ⟨.inr hctl, by rw [hp.refillAdr, lineIndex_lineAdr]⟩
    simp [System.abs, hsw, hp.refillAdr, lineTag_lineAdr]

/-- In an acknowledge cycle the data lines show the expected word. -/
theorem ack_expected {mem : LineAdr → Line} {s : System} (hs : (flat mem).Reachable s) {wb : Wb}
    {cyc stb : Bool} (hl : s.legal (.sys wb cyc stb))
    (hack : (s.cache.out (s.cacheIn wb cyc stb)).wbAckO = true) (l : Lane) :
    s.cache.wbDatO l = expected mem s.log (address wb.adr) l := by
  have hi := inv_reachable hs
  obtain ⟨hfresh, htag⟩ := ack_shows hi hl hack
  have hshow := hi.coherent.shows (address wb.adr) l
  rw [WriteBack.view, if_pos htag] at hshow
  rw [hfresh l]
  exact hshow

/-- FLAT MEMORY: in every run, the data lines in an acknowledge cycle (what an acknowledged read
    returns) show in each byte lane the byte of the most recently acknowledged write to that lane of
    the word, and the power-up byte if there was none. The latter is the SDRAM's byte if the SDRAM
    is zero in the lines that the zeroed cache holds at power-up. -/
theorem read_returns_last_write (mem : LineAdr → Line) {s : System} (hs : (flat mem).Reachable s)
    {wb : Wb} {cyc stb : Bool} (hl : s.legal (.sys wb cyc stb))
    (hack : (s.cache.out (s.cacheIn wb cyc stb)).wbAckO = true) (l : Lane) :
    s.cache.wbDatO l =
      (lastByte s.log (address wb.adr) l).getD (powerUpByte mem s.log (address wb.adr) l) ∧
    ((∀ j w l, mem (lineAdr 0#12 j) w l = 0#8) →
      powerUpByte mem s.log (address wb.adr) l =
        mem (lineAdr (cacheTag (address wb.adr)) (cacheIndex (address wb.adr)))
          (cacheLindex (address wb.adr)) l) :=
  ⟨ack_expected hs hl hack l, fun h => powerUpByte_eq h _ _ _⟩

/-- Power-up over a zero SDRAM. -/
def powerUp : System where
  cache :=
    { state := .idle
      cacheline := fun _ => { storage := fun _ => 0, do0 := 0, do1 := 0 }
      cachetags := { storage := fun _ => ⟨0, false⟩, dout := ⟨0, false⟩ }
      evictAdr := 0
      refillAdr := 0 }
  syncAck := ⟨false, false, false, false⟩
  sdram := fun _ _ _ => 0
  ctl := .none
  req := none
  log := []

def writeWord : Edge := .sys ⟨0, 0xab, 1, true⟩ true true

def readWord : Edge := .sys ⟨0, 0, 15, false⟩ true true

/-- The CHECK_HIT cycle of a read of word 0 after a write of `0xab` to its byte lane 0. -/
def writeThenRead : System := ((powerUp.step writeWord).step writeWord).step readWord

theorem read_returns_last_write_example :
    writeThenRead.cache.wbDatO 0 = 0xab ∧ writeThenRead.cache.wbDatO 1 = 0 := by
  have h0 : (flat fun _ _ _ => 0).Reachable powerUp :=
    .start ⟨rfl, fun _ _ => rfl, fun _ => rfl, ⟨rfl, rfl, rfl⟩, rfl, rfl, rfl, rfl⟩
  have l0 : powerUp.legal writeWord := fun r h => by cases h
  have l1 : (powerUp.step writeWord).legal writeWord := fun r h => by cases h; rfl
  have l2 : ((powerUp.step writeWord).step writeWord).legal readWord := fun r h => by cases h
  have l3 : writeThenRead.legal readWord := fun r h => by cases h; rfl
  have h3 := reachable_step (reachable_step (reachable_step h0 l0) l1) l2
  have hread := fun l => (read_returns_last_write _ h3 l3 rfl l).1
  exact ⟨hread 0, hread 1⟩

end DsdOrsoc.Yadmc.Flat
