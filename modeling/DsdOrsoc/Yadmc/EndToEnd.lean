import DsdOrsoc.Yadmc.Assembly
import DsdOrsoc.Yadmc.Coherence

/-! The assembled `yadmc` is a flat memory. A state of the assembly refines a state of the flat
    memory of the cache front end, whose controller moves whole lines at once:

        assembly     FREE ▶ SENT, PENDING ▶ SERVING (write burst ▶ read burst) ▶ ACKED ▶ FREE
        flat memory  none ▶ evict, refill ──────────▶ refill ─────────────────▶ acked ▶ none

    The flat memory copies an evicted line when the last beat of the write burst is in the chip, and
    a refilled one when its last half-word is in the cache RAMs. In between the chip and the RAMs
    hold half a line, and the read registers of port 0 may show anything; they are up to date again
    when `command_ack` has passed its synchronizer. -/

namespace DsdOrsoc.Yadmc.EndToEnd
open Schemes Crossing

/-! ### Lines in the chip -/

/-- The line that the chip holds at a line address. -/
def lineIn (mem : Bank → Row → Column → BitVec 16) (a : LineAdr) : Flat.Line := fun w l =>
  laneByte (Transfer.chipHalf mem a (Transfer.halfOf w l) ++
    Transfer.chipHalf mem a (Transfer.halfOf w l)) l

/-- Byte lane `l` of a cache word is in the half-word `halfOf w l`. -/
theorem laneByte_cacheHalf (F : Transfer.Content) (j : BitVec 9) (w : BitVec 2) (l : Lane) :
    laneByte (Transfer.cacheHalf F j (Transfer.halfOf w l) ++
      Transfer.cacheHalf F j (Transfer.halfOf w l)) l = F l (cacheAdr j w) := by
  have hlow : ∀ x : BitVec 16, laneByte (x ++ x) 1 ++ laneByte (x ++ x) 0 = x := fun x =>
    calc laneByte (x ++ x) 1 ++ laneByte (x ++ x) 0
        = (x ++ x).extractLsb' 0 16 := BitVec.extractLsb'_append_extractLsb'_eq_extractLsb' rfl
      _ = x := BitVec.extractLsb'_append_eq_right
  have hhigh : ∀ x : BitVec 16, laneByte (x ++ x) 3 ++ laneByte (x ++ x) 2 = x := fun x =>
    calc laneByte (x ++ x) 3 ++ laneByte (x ++ x) 2
        = (x ++ x).extractLsb' 16 16 := BitVec.extractLsb'_append_extractLsb'_eq_extractLsb' rfl
      _ = x := BitVec.extractLsb'_append_eq_left
  have h1 := hlow (Transfer.cacheHalf F j (w ++ 1#1))
  have h2 := hhigh (Transfer.cacheHalf F j (w ++ 0#1))
  nth_rewrite 5 [Transfer.cacheHalf_low] at h1
  nth_rewrite 5 [Transfer.cacheHalf_high] at h2
  fin_cases l
  exacts [(append_inj.1 h1).2, (append_inj.1 h1).1, (append_inj.1 h2).2, (append_inj.1 h2).1]

/-- A complete eviction replaces one line of the chip. -/
theorem lineIn_writeBeats (M : Bank → Row → Column → BitVec 16) (F : Transfer.Content)
    (e : LineAdr) :
    lineIn (Transfer.writeBeats M e (Transfer.cacheHalf F (lineIndex e)) 8) =
      Function.update (lineIn M) e fun w l => F l (cacheAdr (lineIndex e) w) := by
  funext a w l
  by_cases ha : a = e
  · subst ha
    have hk : ∀ k, Transfer.chipHalf
        (Transfer.writeBeats M a (Transfer.cacheHalf F (lineIndex a)) 8) a k =
        Transfer.cacheHalf F (lineIndex a) k := by
      intro k
      have h1 : (a.extractLsb' 2 6 ++ k).extractLsb' 3 6 = a.extractLsb' 2 6 :=
        BitVec.extractLsb'_append_eq_left
      have h2 : (a.extractLsb' 2 6 ++ k).extractLsb' 0 3 = k := BitVec.extractLsb'_append_eq_right
      rw [Transfer.chipHalf, Transfer.writeBeats, h1, h2, if_pos ⟨rfl, rfl, rfl, k.isLt⟩]
    rw [Function.update_self, lineIn, hk, laneByte_cacheHalf]
  · have hk : ∀ k, Transfer.chipHalf
        (Transfer.writeBeats M e (Transfer.cacheHalf F (lineIndex e)) 8) a k =
        Transfer.chipHalf M a k := by
      intro k
      have h1 : (a.extractLsb' 2 6 ++ k).extractLsb' 3 6 = a.extractLsb' 2 6 :=
        BitVec.extractLsb'_append_eq_left
      rw [Transfer.chipHalf, Transfer.writeBeats, h1, if_neg]
      · rfl
      · rintro ⟨hb, hr, hc, -⟩
        exact ha (Transfer.line_ext hb hr hc)
    rw [Function.update_of_ne ha, lineIn, lineIn, hk]

/-- A complete refill replaces one line of the cache RAMs. -/
theorem content_setLine (c : Cache) (M : Bank → Row → Column → BitVec 16) (r : LineAdr) :
    content (Flat.setLine c (lineIndex r) (lineIn M r)) =
      Transfer.fillBeats (content c) r (Transfer.chipHalf M r) 8 := by
  funext l a
  have h8 : (Transfer.halfOf (a.extractLsb' 0 2) l).toNat < 8 := BitVec.isLt _
  simp only [content, Flat.setLine, Transfer.fillBeats, h8, and_true]
  rfl

/-! ### The sys_clk side -/

/-- The registers of sys_clk agree, with `sync_ack` in state `y`. -/
structure Front (y : Sync) (s : System) (f : Flat.System) : Prop where
  state : f.cache.state = s.cross.cache.state
  cachetags : f.cache.cachetags = s.cross.cache.cachetags
  evictAdr : f.cache.evictAdr = s.cross.cache.evictAdr
  refillAdr : f.cache.refillAdr = s.cross.cache.refillAdr
  syncAck : f.syncAck = y
  req : f.req = s.req
  log : f.log = s.log

/-- The answer of the flat memory to a sys_clk edge. -/
def answer (f : Flat.System) (e : Edge) : Flat.System :=
  e.bus.elim f fun b => f.step (.sys b.wb b.cyc b.stb)

/-- The read registers of port 0 agree. -/
def Ports (s : System) (f : Flat.System) : Prop := ∀ l, f.cache.wbDatO l = s.cross.cache.wbDatO l

section Sys

variable {s : System} {f : Flat.System} {e : Edge} {c : Command}

/-- The state machine looks at its state and the registered tag word. -/
theorem out_congr {x y : Cache} (hs : x.state = y.state) (ht : x.cachetags = y.cachetags)
    (i : CacheIn) : x.out i = y.out i := by
  cases x
  cases y
  dsimp only at hs ht
  subst hs ht
  rfl

/-- The registers of sys_clk move with sys_clk. -/
theorem regs_cacheStep (x : Crossing.System) (e : Edge) :
    (x.cacheStep e).state = (e.bus.elim x.cache fun b => x.cache.sysClk (x.cacheIn b)).state ∧
    (x.cacheStep e).cachetags =
      (e.bus.elim x.cache fun b => x.cache.sysClk (x.cacheIn b)).cachetags ∧
    (x.cacheStep e).evictAdr =
      (e.bus.elim x.cache fun b => x.cache.sysClk (x.cacheIn b)).evictAdr ∧
    (x.cacheStep e).refillAdr =
      (e.bus.elim x.cache fun b => x.cache.sysClk (x.cacheIn b)).refillAdr := by
  cases e <;> exact ⟨rfl, rfl, rfl, rfl⟩

theorem Front.cacheIn (h : Front s.cross.syncAck s f) (b : Bus) :
    f.cacheIn b.wb b.cyc b.stb = s.cross.cacheIn b := by
  simp [Flat.System.cacheIn, Crossing.System.cacheIn, h.syncAck]

theorem Front.out (h : Front s.cross.syncAck s f) (b : Bus) :
    f.cache.out (s.cross.cacheIn b) = s.cross.cache.out (s.cross.cacheIn b) :=
  out_congr h.state h.cachetags _

/-- STEP: the registers of sys_clk go on agreeing. -/
theorem Front.answer (h : Front s.cross.syncAck s f) (e : Edge) :
    Front (if e.bus.isSome then s.cross.syncAck.clk1 else s.cross.syncAck) (s.step e)
      (answer f e) := by
  obtain ⟨h1, h2, h3, h4⟩ := regs_cacheStep s.cross (s.wired e)
  rw [wired_bus] at h1 h2 h3 h4
  cases hb : e.bus with
  | none =>
    rw [hb] at h1 h2 h3 h4
    simp only [EndToEnd.answer, hb, Option.elim]
    exact ⟨h.state.trans h1.symm, h.cachetags.trans h2.symm, h.evictAdr.trans h3.symm,
      h.refillAdr.trans h4.symm, h.syncAck, by simp [System.step, hb, h.req],
      by simp [System.step, hb, h.log]⟩
  | some b =>
    rw [hb] at h1 h2 h3 h4
    have ho := h.out b
    simp only [EndToEnd.answer, hb, Option.elim, Flat.System.step, h.cacheIn]
    refine ⟨Eq.trans ?_ h1.symm, Eq.trans ?_ h2.symm, Eq.trans ?_ h3.symm, Eq.trans ?_ h4.symm,
      ?_, ?_, ?_⟩
    · simp [Flat.System.sysClk, Cache.sysClk, ho]
    · simp [Flat.System.sysClk, Cache.sysClk, ho, h.cachetags]
    · simp [Flat.System.sysClk, Cache.sysClk, ho, h.cachetags, h.evictAdr]
    · simp [Flat.System.sysClk, Cache.sysClk, ho, h.refillAdr]
    · simp [Flat.System.sysClk, h.syncAck]
    · simp only [Flat.System.sysClk, System.step, System.wbAckO, hb, Option.elim, ho, h.req]
      rfl
    · simp only [Flat.System.sysClk, System.step, System.wbAckO, hb, Option.elim, ho, h.log]
      rfl

/-- Port 0 writes the same bytes and reads the same words where the contents agree. -/
theorem content_sysClk {x y : Cache} {i : CacheIn} (hc : content x = content y)
    (ho : x.out i = y.out i) : content (x.sysClk i) = content (y.sysClk i) ∧
      ∀ l, (x.sysClk i).wbDatO l = (y.sysClk i).wbDatO l := by
  have hs : ∀ l, (x.cacheline l).storage = (y.cacheline l).storage := fun l => congrFun hc l
  have hst : ∀ l, ((x.sysClk i).cacheline l).storage = ((y.sysClk i).cacheline l).storage := by
    intro l
    funext a
    simp only [Cache.sysClk, Dpram.clk0_storage, ho, hs]
  refine ⟨funext hst, fun l => ?_⟩
  have h := congrFun (hst l) (cacheAdr (cacheIndex (address i.wb.adr))
    (cacheLindex (address i.wb.adr)))
  simp only [Cache.wbDatO, Cache.sysClk, Dpram.clk0_do0]
  exact h

/-- The command of the flat memory after a sys_clk edge. -/
theorem answer_ctl (h : Front s.cross.syncAck s f) (e : Edge) : (answer f e).ctl =
    if s.cross.commandEvict (s.wired e) then .evict
    else if s.cross.commandRefill (s.wired e) then .refill
    else if s.cross.acked (s.wired e) then .none else f.ctl := by
  rw [Crossing.System.commandEvict, Crossing.System.commandRefill, Crossing.System.acked, wired_bus]
  cases hb : e.bus with
  | none => simp [answer, hb]
  | some b =>
    simp only [answer, hb, Option.elim, Flat.System.step, Flat.System.sysClk,
      Flat.System.nextCtl, h.cacheIn, h.out, h.syncAck, Option.isSome_some, Bool.true_and]

theorem answer_sdram : (answer f e).sdram = f.sdram := by
  rw [answer]
  cases e.bus <;> rfl

/-- While the FSM waits, the bus side neither writes nor commands. -/
theorem not_busWrites (hw : Waiting c s.cross) (hq : s.cross.syncAck.flago = false) :
    ¬ BusWrites s.cross e := by
  rintro ⟨b, -, hack, -⟩
  simp [Cache.out, hw.state, Crossing.System.cacheIn, hq] at hack

theorem answer_wait (h : Front s.cross.syncAck s f) (hw : Waiting c s.cross)
    (hq : s.cross.syncAck.flago = false) (e : Edge) :
    content (answer f e).cache = content f.cache ∧ (answer f e).ctl = f.ctl := by
  obtain ⟨-, h1, h2, -, h3⟩ := hw.step (e := s.wired e) hq
  refine ⟨?_, by simp [answer_ctl h, h1, h2, h3]⟩
  rw [answer]
  cases hb : e.bus with
  | none => rfl
  | some b =>
    have hack : (s.cross.cache.out (s.cross.cacheIn b)).wbAckO = false := by
      simp [Cache.out, hw.state, Crossing.System.cacheIn, hq]
    funext l
    simp [content, Flat.System.step, Flat.System.sysClk, h.cacheIn, Cache.sysClk, h.out, hack,
      Dpram.clk0]

end Sys

/-! ### The relation -/

/-- Cache RAMs and SDRAM agree. -/
structure Same (s : System) (f : Flat.System) : Prop where
  content : content f.cache = content s.cross.cache
  sdram : f.sdram = lineIn s.chip.mem

/-- The first move of the flat memory on a command. -/
def first (c : Command) : Flat.Ctl := if c.evict then .evict else .refill

structure IsFree (L : List Event) (s : System) (f : Flat.System) : Prop where
  free : Free L s.cross
  ctl : f.ctl = .none
  same : Same s f
  ports : Ports s f

/-- The command is on its way. -/
structure IsQueued (c : Command) (L : List Event) (s : System) (f : Flat.System) : Prop where
  queued : Sent c L s.cross ∨ Pending c L s.cross
  ctl : f.ctl = first c
  same : Same s f

/-- The write burst is under way: the flat memory has the chip and the RAMs from before it. -/
structure IsEvicting (c : Command) (L : List Event) (s : System) (f : Flat.System)
    (t : Transfer.System) : Prop where
  exec : Serving c L s.cross
  ctl : f.ctl = .evict
  move : ∃ M W, Transfer.Evicting M (content f.cache) W c.evictAdr c.refillAdr t ∧
    f.sdram = lineIn M

/-- The read burst is under way. -/
structure IsRefilling (c : Command) (L : List Event) (s : System) (f : Flat.System)
    (t : Transfer.System) : Prop where
  exec : Serving c L s.cross
  ctl : f.ctl = .refill
  move : ∃ M W, Transfer.Refilling M (content f.cache) W c.evictAdr c.refillAdr t ∧
    f.sdram = lineIn M

/-- The acknowledge is in its synchronizer, behind at least one edge of port 0 from its first
    flip-flop on. -/
structure IsAcked (c : Command) (L : List Event) (s : System) (f : Flat.System) : Prop where
  acked : Acked c L s.cross
  ctl : f.ctl = .acked
  same : Same s f
  ports : s.cross.syncAck.sync0 = s.cross.syncAck.toggle → Ports s f

def Link (s : System) (f : Flat.System) (t : Transfer.System) : Prop :=
  (∃ L, IsFree L s f) ∨ ∃ c L, IsQueued c L s f ∨ IsEvicting c L s f t ∨ IsRefilling c L s f t ∨
    IsAcked c L s f

/-- The flat memory that a state of the assembly refines. -/
structure Refines (s : System) (f : Flat.System) : Prop where
  cross : Crossing.machine.Reachable s.cross
  front : Front s.cross.syncAck s f
  link : ∃ t, Backs s t ∧ Link s f t

section Step

variable {s : System} {f : Flat.System} {t : Transfer.System} {e : Edge} {c : Command}
variable {L : List Event}

theorem commandAck_rest {x : Crossing.System} (h : x.core.state ≠ .readburst) (e : Edge) :
    x.commandAck e = false := by
  rw [Crossing.System.commandAck]
  cases e.dq with
  | none => rfl
  | some d =>
    rw [Option.elim, Bool.eq_false_iff]
    exact fun ha => h ((Legality.commandAck_iff _ _).1 ha).1

/-- Without an acknowledge of the controller the synchronizer only moves with sys_clk. -/
theorem Front.settle {y : Sync} (h : Front y (s.step e) f)
    (hy : y = if e.bus.isSome then s.cross.syncAck.clk1 else s.cross.syncAck)
    (hc : s.cross.commandAck (s.wired e) = false) :
    Front (s.step e).cross.syncAck (s.step e) f := by
  have hs : (s.step e).cross.syncAck = y := by
    rw [hy]
    simp [System.step, Crossing.System.step, hc, Sync.clk0]
  rw [hs]
  exact h

theorem Backs.mem (h : Backs s t) (hx : Crossing.Inv s.cross)
    (hst : s.cross.core.state ≠ .writeburst) : (s.step e).chip.mem = s.chip.mem := by
  cases hd : e.dq with
  | none => simp [System.step, hd]
  | some d =>
    obtain ⟨-, -, h3, -⟩ := h.clk hx hd
    rw [← h3, ← h.chip]
    exact mem_clk (Transfer.inv_reachable h.reachable) h.asleep (by rw [h.core]; exact hst)

/-- STEP: outside an execution the memories go on agreeing, and an edge of port 0 brings its read
    registers up to date. -/
theorem Same.step (h : Same s f) (hb : Backs s t) (hx : Crossing.Inv s.cross)
    (hf : Front s.cross.syncAck s f) (hr : serving s.cross.core.state = false) :
    Same (s.step e) (answer f e) ∧ (e.bus.isSome = true ∨ Ports s f →
      Ports (s.step e) (answer f e)) := by
  have hwe : ∀ d, (s.wired e).dq = some d →
      (s.cross.core.out (s.cross.sdramIn d)).cacheWe = 0 := by
    intro d _
    fun_cases Sdram16.out s.cross.core (s.cross.sdramIn d) <;> simp_all [serving]
  have hcon : EndToEnd.content (s.step e).cross.cache = _ := content_of_cacheWe hwe
  have hdo : ∀ l, (s.step e).cross.cache.wbDatO l = _ := fun l =>
    do0_cacheStep (x := s.cross) (e := s.wired e) l
  have hmem := hb.mem (e := e) hx fun h' => by
    rw [h'] at hr
    cases hr
  rw [wired_bus] at hcon
  simp only [wired_bus] at hdo
  cases hbus : e.bus with
  | none =>
    rw [hbus] at hcon
    simp only [hbus] at hdo
    simp only [answer, hbus, Option.elim]
    refine ⟨⟨h.content.trans hcon.symm, h.sdram.trans (by rw [hmem])⟩, fun hp l => ?_⟩
    rw [hdo]
    exact hp.resolve_left (by simp) l
  | some b =>
    rw [hbus] at hcon
    simp only [hbus] at hdo
    obtain ⟨h1, h2⟩ := content_sysClk (i := s.cross.cacheIn b) h.content (hf.out b)
    simp only [answer, hbus, Option.elim, Flat.System.step, hf.cacheIn, Flat.System.sysClk]
    refine ⟨⟨h1.trans hcon.symm, h.sdram.trans (by rw [hmem])⟩, fun _ l => ?_⟩
    rw [hdo]
    exact h2 l

/-- What an edge leads to: the flat memory answers it and makes up to two more moves. -/
def Next (s : System) (f : Flat.System) (e : Edge) : Prop :=
  ∃ n, ∃ f', f' = Flat.System.serve^[n] (answer f e) ∧
    Front (s.step e).cross.syncAck (s.step e) f' ∧ ∃ t', Backs (s.step e) t' ∧ Link (s.step e) f' t'

theorem Backs.step (h : Backs s t) (hx : Crossing.Inv s.cross) : ∃ t', Backs (s.step e) t' := by
  by_cases hw : BusWrites s.cross e
  · exact h.write hx hw
  · exact ⟨_, h.quiet hx hw⟩

theorem IsFree.step (h : IsFree L s f) (hb : Backs s t) (hx : Crossing.Inv s.cross)
    (hf : Front s.cross.syncAck s f) (e : Edge) : Next s f e := by
  obtain ⟨t', hb'⟩ := hb.step (e := e) hx
  obtain ⟨hsame, hports⟩ := h.same.step (e := e) hb hx hf h.free.core.rest
  have hack := commandAck_rest (x := s.cross) (fun h' => by
    have := h.free.core.rest
    rw [h'] at this
    cases this) (s.wired e)
  refine ⟨0, _, rfl, (hf.answer e).settle rfl hack, t', hb', ?_⟩
  have hctl := answer_ctl hf e
  have hno : s.cross.acked (s.wired e) = false := by
    simp [Crossing.System.acked, h.free.ack.flago]
  rcases miss_step (e := s.wired e) h.free.state with ⟨hm, -, hE, hR⟩ | ⟨c, hm, -, hE, hR⟩
  · left
    rcases h.free.step (e := s.wired e) with ⟨-, hfree⟩ | ⟨c, hm', -⟩
    · refine ⟨L, hfree, ?_, hsame, hports (.inr h.ports)⟩
      simp [hctl, hE, hR, hno, h.ctl]
    · rw [hm] at hm'
      cases hm'
  · right
    rcases h.free.step (e := s.wired e) with ⟨hm', -⟩ | ⟨c', hm', hsent⟩
    · rw [hm] at hm'
      cases hm'
    · rw [hm] at hm'
      cases hm'
      refine ⟨c, L, .inl ⟨.inl hsent, ?_, hsame⟩⟩
      rw [Function.iterate_zero_apply, hctl, hE, hR, first]
      cases c.evict <;> rfl

/-- An execution starts with the command that is recorded. -/
theorem state_start {x : Sdram16} {i : SdramIn} (h : serving x.state = false)
    (h' : serving (x.clk i).state = true) :
    (x.clk i).state =
      if (x.clk i).commandEvictPending then .prechargeBeforeWrite else .prechargeBeforeRead := by
  rw [Sdram16.clk] at h' ⊢
  revert h'
  fun_cases Sdram16.out x i <;> simp_all [serving]

/-- The execution that starts moves the lines of the command. -/
theorem IsQueued.start (hc : f.ctl = first c) (hsame : Same s f) (hb : Backs s t)
    (hs : Serving c L s.cross) (hst : s.cross.core.state =
      if s.cross.core.commandEvictPending then .prechargeBeforeWrite else .prechargeBeforeRead) :
    IsEvicting c L s f t ∨ IsRefilling c L s f t := by
  have hi := Transfer.inv_reachable hb.reachable
  have hcon : t.content = EndToEnd.content f.cache := hb.content.trans hsame.content.symm
  have hmem : f.sdram = lineIn t.chip.mem := by rw [hsame.sdram, hb.chip]
  rw [← hb.core, show t.core.commandEvictPending = c.evict by
    rw [hb.core]; exact hs.recorded.evict] at hst
  have hbusy : ∀ e r, t.ctl.busy = some (e, r) → e = c.evictAdr ∧ r = c.refillAdr := by
    intro e r h
    have := hb.busy _ h
    rw [hs.wait.evictAdr, hs.wait.refillAdr] at this
    exact Prod.mk.inj this
  cases hv : c.evict with
  | true =>
    left
    rw [hv] at hst
    obtain ⟨e, r, hbz, hmsb⟩ := hi.evict hst
    obtain ⟨rfl, rfl⟩ := hbusy e r hbz
    exact ⟨hs, by rw [hc, first, hv]; rfl,
      ⟨_, _, ⟨hbz, hmsb, hcon, rfl, .inl ⟨hst, rfl⟩⟩, hmem⟩⟩
  | false =>
    right
    rw [hv] at hst
    obtain ⟨e, r, hbz, hmsb⟩ := hi.refill hst
    obtain ⟨rfl, rfl⟩ := hbusy e r hbz
    exact ⟨hs, by rw [hc, first, hv]; rfl,
      ⟨_, _, ⟨hbz, hmsb, rfl, .inl ⟨.inl hst, hcon, rfl⟩⟩, hmem⟩⟩

theorem IsQueued.step (h : IsQueued c L s f) (hb : Backs s t) (hx : Crossing.Inv s.cross)
    (hf : Front s.cross.syncAck s f) (e : Edge) : Next s f e := by
  obtain ⟨hw, hq, hr⟩ : Waiting c s.cross ∧ s.cross.syncAck.Quiet ∧
      serving s.cross.core.state = false := by
    rcases h.queued with h | h
    exacts [⟨h.wait, h.ack, h.core.rest⟩, ⟨h.wait, h.ack, h.rest⟩]
  have hb' := hb.quiet (e := e) hx (not_busWrites hw hq.flago)
  obtain ⟨hsame, -⟩ := h.same.step (e := e) hb hx hf hr
  have hack := commandAck_rest (x := s.cross) (fun h' => by
    rw [h'] at hr
    cases hr) (s.wired e)
  have hctl := (answer_wait hf hw hq.flago e).2.trans h.ctl
  have hnext : (Sent c L (s.step e).cross ∨ Pending c L (s.step e).cross) ∨
      Serving c L (s.step e).cross := by
    rcases h.queued with h | h
    · rcases h.step (e := s.wired e) with h | h | h
      exacts [.inl (.inl h), .inl (.inr h), .inr h]
    · rcases h.step (e := s.wired e) with h | h
      exacts [.inl (.inr h), .inr h]
  refine ⟨0, _, rfl, (hf.answer e).settle rfl hack, _, hb', .inr ⟨c, L, ?_⟩⟩
  rcases hnext with hq' | hs
  · exact .inl ⟨hq', hctl, hsame⟩
  · have hst : (s.step e).cross.core.state = if (s.step e).cross.core.commandEvictPending then
        .prechargeBeforeWrite else .prechargeBeforeRead := by
      cases hd : e.dq with
      | none =>
        have hs' := hs.serves
        simp only [System.step, Crossing.System.step, wired_dq, hd, Option.map_none,
          Option.elim] at hs'
        rw [hr] at hs'
        cases hs'
      | some d =>
        have hs' := hs.serves
        simp only [System.step, Crossing.System.step, wired_dq, hd, Option.map_some,
          Option.elim] at hs' ⊢
        exact state_start hr hs'
    rcases IsQueued.start hctl hsame hb' hs hst with h' | h'
    exacts [.inr (.inl h'), .inr (.inr (.inl h'))]

/-- The write burst goes on, or its last beat makes the flat memory copy the line. -/
theorem IsEvicting.step (h : IsEvicting c L s f t) (hb : Backs s t) (hx : Crossing.Inv s.cross)
    (hf : Front s.cross.syncAck s f) (e : Edge) : Next s f e := by
  have hq := h.exec.ack
  have hw := h.exec.wait
  have hb' := hb.quiet (e := e) hx (not_busWrites hw hq.flago)
  obtain ⟨hcon, hctl⟩ := answer_wait hf hw hq.flago e
  obtain ⟨M, W, hev, hsd⟩ := h.move
  have hst := hev.serves.2
  rw [hb.core] at hst
  have hfront := (hf.answer e).settle rfl (commandAck_rest (x := s.cross) hst (s.wired e))
  have hserve : serving (s.step e).cross.core.state = true → Serving c L (s.step e).cross := by
    intro hs
    rcases h.exec.step (e := s.wired e) with ⟨-, h'⟩ | h'
    · exact h'
    · have := h'.core.rest
      rw [show (s.cross.step (s.wired e)).core.state = (s.step e).cross.core.state from rfl, hs]
        at this
      cases this
  cases hd : e.dq with
  | none =>
    rw [hd] at hb'
    have hs := hserve (by rw [← hb'.core]; exact hev.serves.1)
    exact ⟨0, _, rfl, hfront, t, hb', .inr ⟨c, L, .inr (.inl ⟨hs, hctl.trans h.ctl, M, W,
      by rw [Function.iterate_zero_apply, hcon]; exact hev,
      by rw [Function.iterate_zero_apply, answer_sdram]; exact hsd⟩)⟩⟩
  | some d =>
    rw [hd] at hb'
    rcases hev.step (Transfer.inv_reachable hb.reachable) (hb.legal (f := d) hx) with
      hdone | ⟨hev', -⟩
    · have hs := hserve (by rw [← hb'.core]; simp [hdone.state, serving])
      obtain ⟨e', r', hbz, hmsb⟩ := (Transfer.inv_reachable hb'.reachable).refill hdone.state
      rw [show (some d).elim t (fun f => t.clk (s.clkIn f)) = t.clk (s.clkIn d) from rfl,
        hdone.busy] at hbz
      cases hbz
      have hserved : (answer f e).serve = { answer f e with
          sdram := Function.update (lineIn M) c.evictAdr
            (Flat.lineOf (answer f e).cache (lineIndex c.evictAdr))
          ctl := .refill } := by
        rw [Flat.System.serve, hctl, h.ctl, answer_sdram, hsd, hfront.evictAdr, hs.wait.evictAdr]
      refine ⟨1, _, rfl, ?_, _, hb', .inr ⟨c, L, .inr (.inr (.inl ⟨hs, ?_, _, _,
        ⟨hdone.busy, hmsb, rfl, .inl ⟨.inl hdone.state, ?_, rfl⟩⟩, ?_⟩))⟩⟩ <;>
        rw [Function.iterate_one, hserved]
      · exact ⟨hfront.state, hfront.cachetags, hfront.evictAdr, hfront.refillAdr, hfront.syncAck,
          hfront.req, hfront.log⟩
      · exact hdone.content.trans hcon.symm
      · rw [show ((some d).elim t fun f => t.clk (s.clkIn f)).chip.mem = _ from hdone.mem,
          lineIn_writeBeats, ← hcon]
        rfl
    · have hs := hserve (by rw [← hb'.core]; exact hev'.serves.1)
      exact ⟨0, _, rfl, hfront, _, hb', .inr ⟨c, L, .inr (.inl ⟨hs, hctl.trans h.ctl, M, W,
        by rw [Function.iterate_zero_apply, hcon]; exact hev',
        by rw [Function.iterate_zero_apply, answer_sdram]; exact hsd⟩)⟩⟩

/-- A flag has just been sent: the first flip-flop has not seen it. -/
theorem sync0_send {y : Sync} (h : y.Quiet) : (y.clk0 true).sync0 ≠ (y.clk0 true).toggle := by
  simp [Sync.clk0, h.1]

/-- The read burst goes on, or its end makes the flat memory copy the line and acknowledge. -/
theorem IsRefilling.step (h : IsRefilling c L s f t) (hb : Backs s t) (hx : Crossing.Inv s.cross)
    (hf : Front s.cross.syncAck s f) (e : Edge) : Next s f e := by
  have hq := h.exec.ack
  have hw := h.exec.wait
  have hb' := hb.quiet (e := e) hx (not_busWrites hw hq.flago)
  obtain ⟨hcon, hctl⟩ := answer_wait hf hw hq.flago e
  obtain ⟨M, W, hre, hsd⟩ := h.move
  have hstay : serving (s.step e).cross.core.state = true →
      s.cross.commandAck (s.wired e) = false ∧ Serving c L (s.step e).cross := by
    intro hs
    rcases h.exec.step (e := s.wired e) with h' | h'
    · exact h'
    · have := h'.core.rest
      rw [show (s.cross.step (s.wired e)).core.state = (s.step e).cross.core.state from rfl, hs]
        at this
      cases this
  cases hd : e.dq with
  | none =>
    rw [hd] at hb'
    obtain ⟨hack, hs⟩ := hstay (by rw [← hb'.core]; exact hre.serves.1)
    exact ⟨0, _, rfl, (hf.answer e).settle rfl hack, t, hb', .inr ⟨c, L, .inr (.inr (.inl
      ⟨hs, hctl.trans h.ctl, M, W, by rw [Function.iterate_zero_apply, hcon]; exact hre,
        by rw [Function.iterate_zero_apply, answer_sdram]; exact hsd⟩))⟩⟩
  | some d =>
    rw [hd] at hb'
    rcases hre.step (Transfer.inv_reachable hb.reachable) (hb.legal (f := d) hx) with
      hdone | ⟨hre', -⟩
    · have hacked : Acked c L (s.step e).cross := by
        rcases h.exec.step (e := s.wired e) with ⟨-, h'⟩ | h'
        · have := h'.serves
          rw [show (s.cross.step (s.wired e)).core = (s.step e).cross.core from rfl, ← hb'.core,
            show ((some d).elim t fun f => t.clk (s.clkIn f)).core.state = _ from hdone.state]
            at this
          cases this
        · exact h'
      have hack : s.cross.commandAck (s.wired e) = true := by
        by_contra hn
        exact Busy.not_quiet hacked.ack (syncAck_quiet hq (by simpa using hn))
      have hy : (s.step e).cross.syncAck = (answer f e).syncAck.clk0 true := by
        rw [(hf.answer e).syncAck]
        simp [System.step, Crossing.System.step, hack]
      have hquiet : (answer f e).syncAck.Quiet := by
        rw [(hf.answer e).syncAck]
        split
        exacts [hq.clk1, hq]
      have hserved : (answer f e).serve.serve = { answer f e with
          cache := Flat.setLine (answer f e).cache (lineIndex c.refillAdr) (lineIn M c.refillAdr)
          syncAck := (answer f e).syncAck.clk0 true
          ctl := .acked } := by
        have hl : Flat.setLine (answer f e).cache (lineIndex (answer f e).cache.refillAdr)
            ((answer f e).sdram (answer f e).cache.refillAdr) =
            Flat.setLine (answer f e).cache (lineIndex c.refillAdr) (lineIn M c.refillAdr) := by
          rw [answer_sdram, hsd, (hf.answer e).refillAdr, hacked.wait.refillAdr]
        have h1 : (answer f e).serve = { answer f e with
            cache := Flat.setLine (answer f e).cache (lineIndex c.refillAdr) (lineIn M c.refillAdr)
            ctl := .copied } := by
          simp only [Flat.System.serve, hctl, h.ctl, hl]
        rw [h1]
        rfl
      have hfr := hf.answer e
      refine ⟨2, _, rfl, ?_, _, hb', .inr ⟨c, L, .inr (.inr (.inr ⟨hacked, ?_, ⟨?_, ?_⟩,
        fun h0 => ?_⟩))⟩⟩
      · rw [show Flat.System.serve^[2] (answer f e) = _ from hserved, hy]
        exact ⟨hfr.state, hfr.cachetags, hfr.evictAdr, hfr.refillAdr, rfl, hfr.req, hfr.log⟩
      · rw [show Flat.System.serve^[2] (answer f e) = _ from hserved]
      · rw [show Flat.System.serve^[2] (answer f e) = _ from hserved, ← hb'.content,
          show ((some d).elim t fun f => t.clk (s.clkIn f)).content = _ from hdone.content, ← hcon]
        exact content_setLine _ _ _
      · rw [show Flat.System.serve^[2] (answer f e) = _ from hserved, ← hb'.chip,
          show ((some d).elim t fun f => t.clk (s.clkIn f)).chip.mem = _ from hdone.mem,
          answer_sdram]
        exact hsd
      · rw [hy] at h0
        exact absurd h0 (sync0_send hquiet)
    · obtain ⟨hack, hs⟩ := hstay (by rw [← hb'.core]; exact hre'.serves.1)
      exact ⟨0, _, rfl, (hf.answer e).settle rfl hack, _, hb', .inr ⟨c, L, .inr (.inr (.inl
        ⟨hs, hctl.trans h.ctl, M, W, by rw [Function.iterate_zero_apply, hcon]; exact hre',
          by rw [Function.iterate_zero_apply, answer_sdram]; exact hsd⟩))⟩⟩

theorem IsAcked.step (h : IsAcked c L s f) (hb : Backs s t) (hx : Crossing.Inv s.cross)
    (hf : Front s.cross.syncAck s f) (e : Edge) : Next s f e := by
  obtain ⟨t', hb'⟩ := hb.step (e := e) hx
  have hr := h.acked.core.rest
  obtain ⟨hsame, hports⟩ := h.same.step (e := e) hb hx hf hr
  have hack := commandAck_rest (x := s.cross) (fun h' => by
    rw [h'] at hr
    cases hr) (s.wired e)
  obtain ⟨hE, hR, -, hstay, hgo⟩ := wait_step (e := s.wired e) h.acked.wait
  have hctl := answer_ctl hf e
  simp only [hE, hR, Bool.false_eq_true, if_false] at hctl
  refine ⟨0, _, rfl, (hf.answer e).settle rfl hack, t', hb', ?_⟩
  rcases h.acked.step (e := s.wired e) with h' | h'
  · right
    have hno : s.cross.acked (s.wired e) = false := by
      by_contra ha
      have := hgo (by simpa using ha)
      rw [h'.wait.state] at this
      cases this
    refine ⟨c, L, .inr (.inr (.inr ⟨h', ?_, hsame, fun h0 => hports ?_⟩))⟩
    · rw [Function.iterate_zero_apply, hctl, hno, h.ctl]
      rfl
    · cases hbus : e.bus with
      | some b => exact .inl rfl
      | none =>
        refine .inr (h.ports ?_)
        simpa [System.step, Crossing.System.step, hbus, hack, Sync.clk0] using h0
  · left
    have hyes : s.cross.acked (s.wired e) = true := by
      by_contra ha
      exact h'.state (hstay (by simpa using ha)).state
    refine ⟨_, h', ?_, hsame, hports (.inl ?_)⟩
    · rw [Function.iterate_zero_apply, hctl, hyes]
      rfl
    · rw [Crossing.System.acked, wired_bus, Bool.and_eq_true] at hyes
      exact hyes.1

/-- STEP: whatever edge comes, the flat memory keeps up. -/
theorem Refines.next (h : Refines s f) (e : Edge) : Next s f e := by
  obtain ⟨t, hb, hl⟩ := h.link
  have hx := Crossing.inv_reachable h.cross
  rcases hl with ⟨L, hl⟩ | ⟨c, L, hl | hl | hl | hl⟩
  exacts [hl.step hb hx h.front e, hl.step hb hx h.front e, hl.step hb hx h.front e,
    hl.step hb hx h.front e, hl.step hb hx h.front e]

end Step

/-! ### Simulation -/

theorem foldl_serve (f : Flat.System) : ∀ n,
    (List.replicate n Flat.Edge.ctl).foldl Flat.System.step f = Flat.System.serve^[n] f
  | 0 => rfl
  | n + 1 => by
    rw [List.replicate_succ, List.foldl_cons, foldl_serve, Function.iterate_succ_apply]
    rfl

theorem legal_serve (mem : LineAdr → Flat.Line) : ∀ (n : ℕ) (f : Flat.System),
    (Flat.flat mem).Legal f (List.replicate n .ctl)
  | 0, _ => trivial
  | n + 1, _ => ⟨trivial, legal_serve mem n _⟩

theorem refines_start {mem : Bank → Row → Column → BitVec 16} {s : System}
    (h : (machine mem).start s) : ∃ f, (Flat.flat (lineIn mem)).start f ∧ Refines s f := by
  obtain ⟨hx, hram, htags, hcmd, hburst, rfl, hreq, hlog⟩ := h
  have hreach : Crossing.machine.Reachable s.cross := .start hx
  obtain ⟨hst, hE, hR, hA, hcore, hpe, hpr, -, -, hlogx⟩ := hx
  have hq : ∀ {y : Sync}, y = ⟨false, false, false, false⟩ → y.Quiet := by
    rintro _ rfl
    exact ⟨rfl, rfl, rfl⟩
  have hfree : Free [] s.cross :=
    ⟨by simp [hst], hq hE, hq hR, hq hA, ⟨by simp [hcore, serving], hpe, hpr⟩, hlogx⟩
  have hback : Backs s ⟨⟨s.cross.core, [], none⟩, s.chip, s.cross.cache.cacheline, fun _ _ => 0⟩ :=
    { reachable := .start ⟨hcore, hpe, hpr, rfl, rfl⟩
      core := rfl
      chip := rfl
      content := rfl
      do1 := fun _ => rfl
      busy := fun p hp => by simp at hp
      asleep := fun _ => ⟨hburst, by
        rw [show Transfer.System.core _ = s.cross.core from rfl, hcmd]
        exact trivial⟩ }
  exact ⟨⟨s.cross.cache, s.cross.syncAck, lineIn s.chip.mem, .none, none, []⟩,
    ⟨hst, hram, htags, hq hA, rfl, rfl, rfl, rfl⟩, hreach,
    ⟨rfl, rfl, rfl, rfl, rfl, hreq.symm, hlog.symm⟩, _, hback,
    .inl ⟨[], hfree, rfl, ⟨rfl, rfl⟩, fun _ => rfl⟩⟩

/-- The moves of the flat memory at an edge. -/
def moves (e : Edge) (n : ℕ) : List Flat.Edge :=
  (e.bus.elim [] fun b => [.sys b.wb b.cyc b.stb]) ++ List.replicate n .ctl

theorem foldl_moves (f : Flat.System) (e : Edge) (n : ℕ) :
    (moves e n).foldl Flat.System.step f = Flat.System.serve^[n] (answer f e) := by
  rw [moves, List.foldl_append, foldl_serve, answer]
  cases e.bus <;> rfl

/-- The assembly refines the flat memory over the lines of its chip. -/
theorem refines_flat (mem : Bank → Row → Column → BitVec 16) :
    (machine mem).Simulates (Flat.flat (lineIn mem)) Refines where
  start _ h := refines_start h
  step s f e h hl := by
    obtain ⟨n, f', hf', hfront, hlink⟩ := h.next e
    have hx : Crossing.machine.Reachable (Crossing.machine.step s.cross (s.wired e)) :=
      .step h.cross trivial
    refine ⟨moves e n, ?_, ?_⟩
    · rw [moves]
      cases hb : e.bus with
      | none => exact legal_serve _ n f
      | some b =>
        refine ⟨fun r hr => ?_, legal_serve _ n _⟩
        exact (hl b hb).1 r (h.front.req.symm.trans hr)
    · rw [show (moves e n).foldl (Flat.flat (lineIn mem)).step f = f' from
        (foldl_moves f e n).trans hf'.symm]
      exact ⟨hx, hfront, hlink⟩

/-! ### Requests -/

section Requests

variable {mem : Bank → Row → Column → BitVec 16} {R : (machine mem).Run}

/-- At an acknowledge the read registers of port 0 are up to date. -/
theorem Refines.ports {s : System} {f : Flat.System} (h : Refines s f) {b : Bus}
    (hack : s.wbAckO b = true) : Ports s f := by
  have hno : ∀ {c}, Waiting c s.cross → s.cross.syncAck.flago = true := fun hw => by
    by_contra hq
    simp [System.wbAckO, Cache.out, hw.state, Crossing.System.cacheIn, hq] at hack
  have hquiet : ∀ {c}, Waiting c s.cross → s.cross.syncAck.Quiet → False := fun hw hq => by
    have := hno hw
    rw [hq.flago] at this
    cases this
  obtain ⟨t, -, ⟨L, hl⟩ | ⟨c, L, hl | hl | hl | hl⟩⟩ := h.link
  · exact hl.ports
  · rcases hl.queued with h | h
    exacts [(hquiet h.wait h.ack).elim, (hquiet h.wait h.ack).elim]
  · exact (hquiet hl.exec.wait hl.exec.ack).elim
  · exact (hquiet hl.exec.wait hl.exec.ack).elim
  · exact hl.ports (hl.acked.ack.2 (hl.acked.ack.flago.1 (hno hl.acked.wait)))

/-- An acknowledge shows the expected word. -/
theorem ack_expected {s : System} (hs : (machine mem).Reachable s) {e : Edge} (hl : s.legal e)
    {b : Bus} (hb : e.bus = some b) (hack : s.wbAckO b = true) (l : Lane) :
    s.cross.cache.wbDatO l = Flat.expected (lineIn mem) s.log (address b.wb.adr) l := by
  obtain ⟨f, hf, h⟩ := (refines_flat mem).reachable hs
  have hmaster : f.legal (.sys b.wb b.cyc b.stb) :=
    fun r hr => (hl b hb).1 r (h.front.req.symm.trans hr)
  rw [← h.ports hack l, ← h.front.log]
  refine Flat.ack_expected hf hmaster ?_ l
  rw [h.front.cacheIn, h.front.out]
  exact hack

theorem Run.cross_next (R : (machine mem).Run) (t : ℕ) : (R.state (t + 1)).cross =
    Crossing.machine.step (R.state t).cross ((R.state t).wired (R.input t)) := by
  rw [R.next]
  rfl

/-- A run of the assembly without its chip. -/
def Run.cross (R : (machine mem).Run) : Crossing.machine.Run where
  state t := (R.state t).cross
  input t := (R.state t).wired (R.input t)
  start := R.start.1
  legal _ := trivial
  next := Run.cross_next R

/-- Both clocks go on and the refresh interval is never zero. -/
structure Lively (R : (machine mem).Run) : Prop where
  sys : ∀ t, ∃ n, t ≤ n ∧ (R.input n).bus.isSome = true
  sdram : ∀ t, ∃ n, t ≤ n ∧ (R.input n).dq.isSome = true
  refresh : ∀ t, refreshInterval (R.state t).cross ≠ 0

/-- The cycle acknowledges a request on the bus. -/
def Acks (R : (machine mem).Run) (t : ℕ) : Prop :=
  ∃ b, (R.input t).bus = some b ∧ (R.state t).wbAckO b = true

theorem Run.ticking (h : Lively R) : Ticking (Run.cross R) := by
  refine ⟨fun t => ?_, fun t => ?_⟩
  · obtain ⟨n, hn, hb⟩ := h.sys t
    exact ⟨n, hn, by simpa [Run.cross] using hb⟩
  · obtain ⟨n, hn, hd⟩ := h.sdram t
    exact ⟨n, hn, by simpa [Run.cross] using hd⟩

/-- STEP: the FSM leaves WAIT_ACK with an acknowledge. -/
theorem Run.wait_stays {t : ℕ} (hw : (R.state t).cross.cache.state = .waitAck)
    (hn : ¬ Acks R t) : (R.state (t + 1)).cross.cache.state = .waitAck := by
  rw [R.next]
  obtain ⟨h1, -⟩ := regs_cacheStep (R.state t).cross ((R.state t).wired (R.input t))
  rw [wired_bus] at h1
  refine Eq.trans h1 ?_
  cases hb : (R.input t).bus with
  | none => exact hw
  | some b =>
    have hack : (R.state t).wbAckO b = false := by
      by_contra h
      exact hn ⟨b, hb, by simpa using h⟩
    have hq : ((R.state t).cross.cacheIn b).commandAck = false := by
      by_contra h
      rw [Bool.not_eq_false] at h
      simp [System.wbAckO, Cache.out, hw, h] at hack
    simp [Cache.sysClk, Cache.out, hw, hq]

/-- RUN: a request in WAIT_ACK is acknowledged. -/
theorem Run.wait_acks (h : Lively R) {t : ℕ} (hw : (R.state t).cross.cache.state = .waitAck) :
    ∃ n, t ≤ n ∧ Acks R n := by
  have hfree : ∃ n, t < n ∧ (R.state n).cross.cache.state ≠ .waitAck := by
    have hR := Run.ticking h
    have hcross : ∀ {c L t}, Pending c L (R.state t).cross ∨ Serving c L (R.state t).cross →
        ∃ n, t < n ∧ Acked c L (R.state n).cross :=
      fun hp => Crossing.Run.crossed_served (R := Run.cross R) hR h.refresh hp
    have hdone : ∀ {c L t}, Acked c L (R.state t).cross →
        ∃ n, t < n ∧ (R.state n).cross.cache.state ≠ .waitAck := fun ha => by
      obtain ⟨n, hn, hf⟩ := Crossing.Run.acked_arrives (R := Run.cross R) hR ha
      exact ⟨n, hn, hf.state⟩
    obtain ⟨-, L, -, hp | ⟨c, hp | hp | hp | hp⟩⟩ :=
      Crossing.inv_reachable ((Run.cross R).reachable t)
    · exact absurd hw hp.state
    · obtain ⟨n1, h1, hp⟩ := Crossing.Run.sent_arrives (R := Run.cross R) hR hp
      obtain ⟨n2, h2, ha⟩ := hcross hp
      obtain ⟨n3, h3, hf⟩ := hdone ha
      exact ⟨n3, by omega, hf⟩
    · obtain ⟨n2, h2, ha⟩ := hcross (.inl hp)
      obtain ⟨n3, h3, hf⟩ := hdone ha
      exact ⟨n3, by omega, hf⟩
    · obtain ⟨n2, h2, ha⟩ := hcross (.inr hp)
      obtain ⟨n3, h3, hf⟩ := hdone ha
      exact ⟨n3, by omega, hf⟩
    · exact hdone hp
  obtain ⟨n, htn, hn⟩ := hfree
  by_contra hno
  have hstay : ∀ k, (R.state (t + k)).cross.cache.state = .waitAck := by
    intro k
    induction k with
    | zero => exact hw
    | succ k ih => exact Run.wait_stays ih fun ha => hno ⟨t + k, by omega, ha⟩
  obtain ⟨k, rfl⟩ := Nat.exists_eq_add_of_lt htn
  exact hn (hstay (k + 1))

/-- RUN: a request in CHECK_HIT is acknowledged, at once or after a command. -/
theorem Run.check_acks (h : Lively R) {t : ℕ} (hc : (R.state t).cross.cache.state = .checkHit) :
    ∃ n, t ≤ n ∧ Acks R n := by
  obtain ⟨n, htn, hbus, hfirst⟩ := first_time (h.sys t)
  have hstay : ∀ u, t ≤ u → u ≤ n → (R.state u).cross.cache.state = .checkHit := by
    intro u hu
    induction u, hu using Nat.le_induction with
    | base => exact fun _ => hc
    | succ u hu ih =>
      intro hun
      have hnone : (R.input u).bus = none := by
        simpa using hfirst u hu (by omega)
      rw [R.next]
      obtain ⟨h1, -⟩ := regs_cacheStep (R.state u).cross ((R.state u).wired (R.input u))
      rw [wired_bus, hnone] at h1
      exact h1.trans (ih (by omega))
  by_cases ha : Acks R n
  · exact ⟨n, htn, ha⟩
  · obtain ⟨b, hb⟩ := Option.isSome_iff_exists.1 hbus
    have hst := hstay n htn le_rfl
    have hack : (R.state n).wbAckO b = false := by
      by_contra h
      exact ha ⟨b, hb, by simpa using h⟩
    have hnext : (R.state (n + 1)).cross.cache.state = .waitAck := by
      rw [R.next]
      obtain ⟨h1, -⟩ := regs_cacheStep (R.state n).cross ((R.state n).wired (R.input n))
      rw [wired_bus, hb] at h1
      refine Eq.trans h1 ?_
      simp only [System.wbAckO, Cache.out, hst] at hack
      simp only [Option.elim, Cache.sysClk, Cache.out, hst]
      split at hack
      · cases hack
      · rename_i hmiss
        rw [if_neg hmiss]
        split <;> rfl
    obtain ⟨m, hm, hack'⟩ := Run.wait_acks h hnext
    exact ⟨m, by omega, hack'⟩

/-- No request is in progress exactly in IDLE. -/
theorem req_none_iff {s : System} (hs : (machine mem).Reachable s) :
    s.req = none ↔ s.cross.cache.state = .idle := by
  obtain ⟨f, hf, h⟩ := (refines_flat mem).reachable hs
  have hp := (Flat.inv_reachable hf).phase
  rw [Flat.Phase] at hp
  rw [← h.front.req, ← h.front.state]
  cases hst : f.cache.state <;> rw [hst] at hp
  · simp [hp.req]
  · obtain ⟨r, hp⟩ := hp
    simp [hp.req]
  · obtain ⟨r, hp⟩ := hp
    simp [hp.req]

/-- An acknowledge is for the request in progress. -/
theorem req_of_ack {s : System} (hs : (machine mem).Reachable s) {b : Bus}
    (hack : s.wbAckO b = true) : s.req ≠ none := by
  intro hr
  simp [System.wbAckO, Cache.out, (req_none_iff hs).1 hr] at hack

/-- STEP: a request stays in progress until its acknowledge. -/
theorem Run.req_stays {t : ℕ} {r : Wb} (hr : (R.state t).req = some r) (hn : ¬ Acks R t) :
    (R.state (t + 1)).req = some r ∧ (R.state (t + 1)).log = (R.state t).log := by
  rw [R.next]
  change ((R.state t).step (R.input t)).req = _ ∧ ((R.state t).step (R.input t)).log = _
  cases hb : (R.input t).bus with
  | none => simp [System.step, hb, hr]
  | some b =>
    have hack : (R.state t).wbAckO b = false := by
      by_contra h
      exact hn ⟨b, hb, by simpa using h⟩
    simp [System.step, hb, hack, hr]

/-- RUN: a request in progress is acknowledged, and none before it. -/
theorem Run.req_acks (h : Lively R) {t : ℕ} {r : Wb} (hr : (R.state t).req = some r) :
    ∃ n b, t ≤ n ∧ (R.input n).bus = some b ∧ b.wb = r ∧ (R.state n).wbAckO b = true ∧
      (R.state n).log = (R.state t).log := by
  have hne : (R.state t).cross.cache.state ≠ .idle := fun h' => by
    rw [(req_none_iff (R.reachable t)).2 h'] at hr
    cases hr
  have hex : ∃ n, t ≤ n ∧ Acks R n := by
    cases hst : (R.state t).cross.cache.state with
    | idle => exact absurd hst hne
    | checkHit => exact Run.check_acks h hst
    | waitAck => exact Run.wait_acks h hst
  obtain ⟨n, htn, ⟨b, hb, hack⟩, hfirst⟩ := first_time hex
  have hstay : ∀ u, t ≤ u → u ≤ n →
      (R.state u).req = some r ∧ (R.state u).log = (R.state t).log := by
    intro u hu
    induction u, hu using Nat.le_induction with
    | base => exact fun _ => ⟨hr, rfl⟩
    | succ u hu ih =>
      intro hun
      obtain ⟨h1, h2⟩ := ih (by omega)
      obtain ⟨h3, h4⟩ := Run.req_stays h1 (hfirst u hu (by omega))
      exact ⟨h3, h4.trans h2⟩
  obtain ⟨hreq, hlog⟩ := hstay n htn le_rfl
  exact ⟨n, b, htn, hb, (R.legal n b hb).1 r hreq, hack, hlog⟩

/-- RUN: a request that is put on the bus is acknowledged, and none before it. -/
theorem Run.bus_acks (h : Lively R) {t : ℕ} {b : Bus} (hb : (R.input t).bus = some b)
    (hc : (b.cyc && b.stb) = true) :
    ∃ n b', t ≤ n ∧ (R.input n).bus = some b' ∧ b'.wb = b.wb ∧ (R.state n).wbAckO b' = true ∧
      (R.state n).log = (R.state t).log := by
  cases hr : (R.state t).req with
  | some r =>
    rw [(R.legal t b hb).1 r hr]
    exact Run.req_acks h hr
  | none =>
    have hack : (R.state t).wbAckO b = false := by
      simp [System.wbAckO, Cache.out, (req_none_iff (R.reachable t)).1 hr]
    have hnext : (R.state (t + 1)).req = some b.wb ∧ (R.state (t + 1)).log = (R.state t).log := by
      rw [R.next]
      change ((R.state t).step (R.input t)).req = _ ∧ ((R.state t).step (R.input t)).log = _
      simp only [System.step, hb, Option.elim, hack, hr, hc, and_self, if_true, Bool.false_eq_true,
        if_false]
    obtain ⟨n, b', hn, h1, h2, h3, h4⟩ := Run.req_acks h hnext.1
    exact ⟨n, b', by omega, h1, h2, h3, h4.trans hnext.2⟩

/-- STEP: an acknowledge ends the request and enters it into the log. -/
theorem Run.acked_next {n : ℕ} {b : Bus} (hb : (R.input n).bus = some b)
    (hack : (R.state n).wbAckO b = true) :
    (R.state (n + 1)).req = none ∧ (R.state (n + 1)).log = b.wb :: (R.state n).log := by
  rw [R.next]
  change ((R.state n).step (R.input n)).req = _ ∧ ((R.state n).step (R.input n)).log = _
  simp [System.step, hb, hack]

/-- RUN: a request that is put on the bus is the next to be acknowledged. -/
theorem Run.answered (h : Lively R) {t : ℕ} {b : Bus} (hb : (R.input t).bus = some b)
    (hc : (b.cyc && b.stb) = true) : ∃ n, t < n ∧ (R.state n).log = b.wb :: (R.state t).log := by
  obtain ⟨n, b', htn, hb', hwb, hack, hlog⟩ := Run.bus_acks h hb hc
  refine ⟨n + 1, by omega, ?_⟩
  rw [(Run.acked_next hb' hack).2, hwb, hlog]

end Requests

/-- The whole of `yadmc` with its SDRAM chip, in every run and whatever the order of the clock
    edges: what an acknowledged request finds on the data lines is, in each byte lane, the byte of
    the most recently acknowledged write to that lane of the word, or the byte from power-up; and if
    both clocks go on and the refresh interval is never zero, every request that is put on the bus
    is the next one to be acknowledged. -/
theorem sdram_answers_as_memory (mem : Bank → Row → Column → BitVec 16) (R : (machine mem).Run) :
    (∀ t b, (R.input t).bus = some b → (R.state t).wbAckO b = true → ∀ l,
      (R.state t).cross.cache.wbDatO l =
        Flat.expected (lineIn mem) (R.state t).log (address b.wb.adr) l) ∧
    (Lively R → ∀ t b, (R.input t).bus = some b → (b.cyc && b.stb) = true →
      ∃ n, t < n ∧ (R.state n).log = b.wb :: (R.state t).log) :=
  ⟨fun t _ hb hack l => ack_expected (R.reachable t) (R.legal t) hb hack l,
    fun h _ _ hb hc => Run.answered h hb hc⟩

/-- Both domains in reset, zeroed RAMs and an idle chip of zeros. -/
def atReset : System where
  cross := { Crossing.atReset with
    core := { Crossing.atReset.core with
      pins := { Crossing.atReset.core.pins with csN := true } } }
  chip := ⟨fun _ _ _ => 0, fun _ => none, none, none, none, true⟩
  req := none
  log := []

/-- The two clocks in turn, with a read that misses on the bus. -/
def readInput (t : ℕ) : Edge := if t % 2 = 0 then .sys readBus else .sdram 0

theorem readInput_req (t : ℕ) : ∀ r,
    ((machine fun _ _ _ => 0).trace atReset readInput t).req = some r → r = readBus.wb := by
  induction t with
  | zero => intro r hr; cases hr
  | succ t ih =>
    intro r hr
    change (System.step _ (readInput t)).req = some r at hr
    rw [readInput] at hr
    split at hr
    · simp only [System.step, Edge.bus, Option.elim] at hr
      split at hr
      · cases hr
      · split at hr
        · cases hr; rfl
        · exact ih r hr
    · exact ih r hr

theorem readInput_legal (t : ℕ) : (machine fun _ _ _ => 0).legal
    ((machine fun _ _ _ => 0).trace atReset readInput t) (readInput t) := by
  intro b hb
  have hbus : b = readBus := by
    rw [readInput] at hb
    split at hb <;> cases hb
    rfl
  subst hbus
  exact ⟨fun r hr => (readInput_req t r hr).symm, fun h => by cases h⟩

theorem atReset_start : (machine fun _ _ _ => 0).start atReset :=
  ⟨⟨rfl, rfl, rfl, rfl, rfl, rfl, rfl, rfl, rfl, rfl⟩, fun _ _ => rfl, fun _ => rfl, rfl, rfl, rfl,
    rfl, rfl⟩

def readRun : (machine fun _ _ _ => 0).Run :=
  Machine.Run.ofInput atReset readInput atReset_start readInput_legal

theorem readRun_cfg1 (t : ℕ) : (readRun.state t).cross.cfg1 = 0x012C0952 := by
  induction t with
  | zero => rfl
  | succ t ih =>
    rw [readRun.next t]
    change (System.step _ (readInput t)).cross.cfg1 = _
    rw [readInput]
    split
    · exact ih
    · exact ih

theorem readRun_lively : Lively readRun where
  sys t := ⟨2 * t, by omega, by simp [readRun, Machine.Run.ofInput, readInput, Edge.bus]⟩
  sdram t := ⟨2 * t + 1, by omega, by
    simp [readRun, Machine.Run.ofInput, readInput, Edge.dq, Nat.add_mod]⟩
  refresh t := by
    rw [refreshInterval, readRun_cfg1]
    decide

theorem sdram_answers_as_memory_read :
    ∃ n, 0 < n ∧ (readRun.state n).log = [readBus.wb] :=
  (sdram_answers_as_memory _ readRun).2 readRun_lively 0 readBus rfl rfl

end DsdOrsoc.Yadmc.EndToEnd
