import DsdOrsoc.Yadmc.Delivery
import DsdOrsoc.Yadmc.Restore

/-! `yadmc` put together: the cache front end, the three synchronizers, `yadmc_sdram16` and the
    SDRAM chip behind its pins, driven by two clocks that rise in any order.

        Wishbone ── cache FSM ══ synchronizers ══ yadmc_sdram16 ── pins ── SDRAM chip
                        └───────── cache RAMs ─────────┘

    Seen from sdram_clk the assembly is a run of the controller between its two memories: the
    command port keeps its rules and the bus side leaves the RAMs alone during a command, so all
    that is known of such runs holds here. `Backs` is that simulation. -/

namespace DsdOrsoc.Yadmc.EndToEnd
open Schemes Crossing

/-- Both clock domains and the chip, with two observers: the request in progress on the bus and the
    acknowledged requests, latest first. -/
structure System where
  cross : Crossing.System
  chip : Chip
  req : Option Wb
  log : List Wb

/-- The bytes of the cache RAMs. -/
def content (c : Cache) : Transfer.Content := fun l => (c.cacheline l).storage

namespace System

variable (s : System) (e : Edge)

/-- The edge as the controller sees it. The argument of a sdram_clk edge is what undriven data
    lines carry. -/
def wired : Edge → Edge
  | .sys b => .sys b
  | .sdram f => .sdram (s.chip.busOut s.cross.core.pins f)
  | .both b f => .both b (s.chip.busOut s.cross.core.pins f)

/-- `wb_ack_o` at a sys_clk edge. -/
def wbAckO (b : Bus) : Bool := (s.cross.cache.out (s.cross.cacheIn b)).wbAckO

/-- A request is in progress from its first `cyc & stb` cycle to its `wb_ack_o`. -/
def step : System where
  cross := s.cross.step (s.wired e)
  chip := e.dq.elim s.chip fun f => s.chip.clk s.cross.core.pins f
  req := e.bus.elim s.req fun b =>
    if s.wbAckO b then none
    else if s.req = none ∧ (b.cyc && b.stb) = true then some b.wb else s.req
  log := e.bus.elim s.log fun b => if s.wbAckO b then b.wb :: s.log else s.log

/-- The rules of the bus: a request is held unchanged until its acknowledge, and `yadmc_cfg0` keeps
    the mode of the chip (CAS latency 2, sequential bursts of eight). -/
def legal : Prop :=
  ∀ b, e.bus = some b → (∀ r, s.req = some r → b.wb = r) ∧
    (Crossing.System.cfgWrite b 0xC000000 = true → b.wb.dat.extractLsb' 0 13 = 0x023)

/-- What a sdram_clk edge is for the controller between its memories. -/
def clkIn (f : BitVec 16) : Transfer.ClkIn where
  commandEvict := s.cross.syncEvict.flago
  commandRefill := s.cross.syncRefill.flago
  evictAdr := s.cross.cache.evictAdr
  refillAdr := s.cross.cache.refillAdr
  cfg0 := s.cross.cfg0
  cfg1 := s.cross.cfg1
  float := f

end System

/-- Out of reset with zeroed RAMs, NOP on the pins and an idle chip that holds `mem`. -/
def machine (mem : Bank → Row → Column → BitVec 16) : Machine System Edge where
  start s := Crossing.machine.start s.cross ∧
    (∀ l a, (s.cross.cache.cacheline l).storage a = 0) ∧
    (∀ j, s.cross.cache.cachetags.storage j = { tag := 0#12, dirty := false }) ∧
    s.cross.core.pins.cmd = .nop ∧ s.chip.burst = none ∧ s.chip.mem = mem ∧
    s.req = none ∧ s.log = []
  legal := System.legal
  step := System.step

@[simp] theorem wired_bus (s : System) (e : Edge) : (s.wired e).bus = e.bus := by cases e <;> rfl

@[simp] theorem wired_dq (s : System) (e : Edge) :
    (s.wired e).dq = e.dq.map (s.chip.busOut s.cross.core.pins) := by cases e <;> rfl

/-! ### The cache RAMs at an edge -/

section Ram

variable {x : Crossing.System} {e : Edge}

/-- The bus side writes the cache RAMs at this edge. -/
def BusWrites (x : Crossing.System) (e : Edge) : Prop :=
  ∃ b, e.bus = some b ∧ (x.cache.out (x.cacheIn b)).wbAckO = true ∧ b.wb.we = true

/-- Without a write on port 0 the RAMs change through port 1. -/
theorem content_of_not_busWrites (h : ¬ BusWrites x e) :
    content (x.cacheStep e) =
      e.dq.elim (content x.cache) fun d l => (x.port1 d l (x.cache.cacheline l)).storage := by
  have hb : ∀ b, e.bus = some b → ∀ l, ((x.cache.sysClk (x.cacheIn b)).cacheline l).storage =
      (x.cache.cacheline l).storage := by
    intro b hb l
    funext a
    have hn : ¬ ((x.cache.out (x.cacheIn b)).wbAckO = true ∧ b.wb.we = true) :=
      fun h' => h ⟨b, hb, h'⟩
    simp only [Cache.sysClk, Dpram.clk0_storage]
    rw [if_neg]
    rintro ⟨h', -⟩
    simp only [Bool.and_eq_true] at h'
    exact hn h'.1
  funext l
  cases e with
  | sdram d => rfl
  | sys b => exact hb b rfl l
  | both b d =>
    have h1 := hb b rfl l
    simp only [content, Crossing.System.cacheStep, Crossing.System.port1, Dpram.clk1, Edge.dq,
      Option.elim]
    split <;> simp only [h1]

/-- Without a write on port 1 the RAMs change through port 0. -/
theorem content_of_cacheWe (h : ∀ d, e.dq = some d → (x.core.out (x.sdramIn d)).cacheWe = 0) :
    content (x.cacheStep e) =
      e.bus.elim (content x.cache) fun b => content (x.cache.sysClk (x.cacheIn b)) := by
  funext l
  cases e with
  | sys b => rfl
  | sdram d =>
    simp [content, Crossing.System.cacheStep, Crossing.System.port1, Dpram.clk1, h d rfl, Edge.bus]
  | both b d =>
    simp [content, Crossing.System.cacheStep, Crossing.System.port1, Dpram.clk1, h d rfl, Edge.bus]

/-- The read registers of port 1 move with sdram_clk. -/
theorem do1_cacheStep (l : Lane) : ((x.cacheStep e).cacheline l).do1 =
    e.dq.elim (x.cache.cacheline l).do1 fun d => (x.port1 d l (x.cache.cacheline l)).do1 := by
  cases e with
  | sdram d => rfl
  | sys b =>
    simp only [Crossing.System.cacheStep, Cache.sysClk, Dpram.clk0, Edge.dq, Option.elim]
    split <;> rfl
  | both b d => rfl

/-- The read registers of port 0 move with sys_clk. -/
theorem do0_cacheStep (l : Lane) : ((x.cacheStep e).cacheline l).do0 =
    e.bus.elim (x.cache.cacheline l).do0
      fun b => ((x.cache.sysClk (x.cacheIn b)).cacheline l).do0 := by
  cases e with
  | sys b => rfl
  | sdram d =>
    simp only [Crossing.System.cacheStep, Crossing.System.port1, Dpram.clk1, Edge.bus, Option.elim]
    split <;> rfl
  | both b d =>
    simp only [Crossing.System.cacheStep, Crossing.System.port1, Dpram.clk1, Edge.bus, Option.elim]
    split <;> rfl

end Ram

/-! ### The command port keeps its rules -/

section Port

variable {x : Crossing.System} {e : Edge}

/-- One flag at a time, and only to a controller without a command. -/
theorem flags (h : Crossing.Inv x) :
    (x.syncEvict.flago && x.syncRefill.flago) = false ∧
    ((x.syncEvict.flago || x.syncRefill.flago) = true → Resting x.core) := by
  obtain ⟨-, L, -, h | ⟨c, h | h | h | h⟩⟩ := h
  · simp [h.evict.flago, h.refill.flago]
  · have hE := h.evict
    have hR := h.refill
    refine ⟨?_, fun _ => h.core⟩
    cases hc : c.evict <;> rw [hc] at hE hR
    · simp [Sync.Quiet.flago hE]
    · simp [Sync.Quiet.flago hR]
  · simp [h.evict.flago, h.refill.flago]
  · simp [h.evict.flago, h.refill.flago]
  · simp [h.evict.flago, h.refill.flago]

/-- An acknowledge on the bus finds the controller without a command. -/
theorem resting_of_ack (h : Crossing.Inv x) {b : Bus}
    (hack : (x.cache.out (x.cacheIn b)).wbAckO = true) :
    Resting x.core ∧ x.syncEvict.flago = false ∧ x.syncRefill.flago = false := by
  have hno : ∀ {c}, Waiting c x → x.syncAck.Quiet → False := fun hw hq => by
    simp [Cache.out, hw.state, Crossing.System.cacheIn, hq.flago] at hack
  obtain ⟨-, L, -, h | ⟨c, h | h | h | h⟩⟩ := h
  · exact ⟨h.core, h.evict.flago, h.refill.flago⟩
  · exact (hno h.wait h.ack).elim
  · exact (hno h.wait h.ack).elim
  · exact (hno h.wait h.ack).elim
  · exact ⟨h.core, h.evict.flago, h.refill.flago⟩

/-- The addresses stay while a command is on its way or in the controller. -/
theorem addresses_step (h : Crossing.Inv x)
    (hc : (x.syncEvict.flago || x.syncRefill.flago) = true ∨ ¬ Resting x.core) :
    (x.step e).cache.evictAdr = x.cache.evictAdr ∧
      (x.step e).cache.refillAdr = x.cache.refillAdr := by
  have hkeep : ∀ {c}, Waiting c x → x.syncAck.Quiet →
      (x.step e).cache.evictAdr = x.cache.evictAdr ∧
        (x.step e).cache.refillAdr = x.cache.refillAdr := by
    intro c hw hq
    have hw' := (hw.step (e := e) hq.flago).1
    exact ⟨hw'.evictAdr.trans hw.evictAdr.symm, hw'.refillAdr.trans hw.refillAdr.symm⟩
  obtain ⟨-, L, -, h | ⟨c, h | h | h | h⟩⟩ := h
  · simp [h.evict.flago, h.refill.flago, h.core] at hc
  · exact hkeep h.wait h.ack
  · exact hkeep h.wait h.ack
  · exact hkeep h.wait h.ack
  · simp [h.evict.flago, h.refill.flago, h.core] at hc

end Port

/-! ### The chip before the first PRECHARGE ALL -/

/-- Nothing has been issued yet, and the chip does nothing. -/
def Asleep (t : Transfer.System) : Prop :=
  t.core.state = .reset ∨ t.core.state = .initPrechargeall →
    t.chip.burst = none ∧ Transfer.Cmd.still t.core.pins.cmd

section Chip

variable {t : Transfer.System} {i : Transfer.ClkIn}

/-- A chip without a burst that is asked for none does nothing to its memory. -/
theorem chip_still (hb : t.chip.burst = none) (hs : Transfer.Cmd.still t.core.pins.cmd) :
    (t.clk i).chip.burst = none ∧ (t.clk i).chip.mem = t.chip.mem := by
  simp only [Transfer.System.clk, Chip.clk, hb, Transfer.burstAt_none _ hs]
  split <;> exact ⟨rfl, rfl⟩

theorem asleep_clk (h : Asleep t) : Asleep (t.clk i) := by
  intro h'
  have hst : t.core.state = .reset ∨
      (t.core.state = .initPrechargeall ∧ t.core.initDone = false) := by
    rw [Transfer.core_clk, Sdram16.clk] at h'
    revert h'
    fun_cases Sdram16.out t.core (t.sdramIn i) <;> simp_all
  obtain ⟨hb, hs⟩ := h (hst.imp id And.left)
  refine ⟨(chip_still hb hs).1, ?_⟩
  rw [Transfer.core_clk, Legality.cmd_clk]
  rcases hst with hst | ⟨hst, hd⟩ <;> rw [hst]
  · exact trivial
  · rw [hd]
    exact trivial

/-- STEP: the chip keeps its memory outside WRITEBURST. -/
theorem mem_clk (hi : Transfer.Inv t) (ha : Asleep t) (hst : t.core.state ≠ .writeburst) :
    (t.clk i).chip.mem = t.chip.mem := by
  have hp := hi.chip
  rw [Transfer.ChipPhase] at hp
  cases h : t.core.state <;> rw [h] at hp
  case reset | initPrechargeall =>
    obtain ⟨hb, hs⟩ := ha (by simp [h])
    exact (chip_still hb hs).2
  case initAutorefresh1 =>
    rcases hp with ⟨hc, hz⟩ | hp
    · rw [Transfer.chip_clk hz, hc]
      rfl
    · rw [hp.chip]
  case initAutorefresh2 => rw [hp.chip]
  case initLoadmode => rw [hp.1.chip]
  case autorefresh =>
    rcases hp with ⟨hc, hz, -⟩ | ⟨hp, -⟩
    · rw [Transfer.chip_clk hz, hc]
      rfl
    · rw [hp.chip]
  case waitRefresh => rw [hp.1.chip]
  case writeburst => exact absurd h hst
  case readreg1 | readreg2 | readreg3 | readfirst =>
    obtain ⟨e, r, -, hr⟩ := hp
    rw [hr.mem]
  case readburst =>
    obtain ⟨e, r, k, -, -, -, hr⟩ := hp
    rw [hr.mem]
  all_goals rw [Transfer.Calm.mem hp]

/-- An outstanding command is pending in the controller. -/
theorem busy_none (ht : Transfer.machine.Reachable t) (he : t.core.commandEvictPending = false)
    (hr : t.core.commandRefillPending = false) : t.ctl.busy = none := by
  have hinv := ht.invariant (I := fun t => t.core.commandEvictPending = false →
    t.core.commandRefillPending = false → t.ctl.busy = none)
  refine hinv (fun s h _ _ => h.2.2.2.2) (fun s e ih _ he hr => ?_) he hr
  cases e with
  | host f => exact ih he hr
  | clk i =>
    change (if s.core.commandAck _ then _ else _) = none
    cases ha : s.core.commandAck (s.sdramIn i) with
    | true => rfl
    | false =>
      have ha' : (s.core.out (s.sdramIn i)).commandAck = false := ha
      simp only [Transfer.machine, Transfer.System.step, Transfer.core_clk, Sdram16.clk, ha',
        Bool.false_eq_true, if_false, Bool.or_eq_false_iff] at he hr
      simpa [he.1, hr.1] using ih he.2 hr.2

end Chip

/-! ### The assembly seen from sdram_clk -/

/-- The controller between its memories that a state of the assembly stands for. -/
structure Backs (s : System) (t : Transfer.System) : Prop where
  reachable : Transfer.machine.Reachable t
  core : t.core = s.cross.core
  chip : t.chip = s.chip
  content : t.content = content s.cross.cache
  do1 : ∀ l, (t.ram l).do1 = (s.cross.cache.cacheline l).do1
  busy : ∀ p ∈ t.ctl.busy, p = (s.cross.cache.evictAdr, s.cross.cache.refillAdr)
  asleep : Asleep t

section Backs

variable {s : System} {t : Transfer.System} {e : Edge} {f : BitVec 16}

theorem Backs.sdramIn (h : Backs s t) : t.sdramIn (s.clkIn f) =
    s.cross.sdramIn (s.chip.busOut s.cross.core.pins f) := by
  simp only [Transfer.System.sdramIn, System.clkIn, Crossing.System.sdramIn, h.do1, h.core, h.chip]

/-- The command port keeps its rules. -/
theorem Backs.legal (h : Backs s t) (hx : Crossing.Inv s.cross) :
    t.ctl.legal (t.sdramIn (s.clkIn f)) := by
  obtain ⟨h1, h2⟩ := flags hx
  refine ⟨h1, fun p hp => ?_⟩
  have hne : ¬ (s.cross.syncEvict.flago || s.cross.syncRefill.flago) = true := fun hf => by
    have hrest := h2 hf
    rw [← h.core] at hrest
    rw [busy_none h.reachable hrest.evict hrest.refill] at hp
    cases hp
  simp only [Bool.or_eq_true, not_or, Bool.not_eq_true] at hne
  obtain rfl := h.busy p hp
  exact ⟨hne.1, hne.2, rfl, rfl⟩

/-- An edge does not change the addresses of an outstanding command. -/
theorem Backs.busy_step (h : Backs s t) (hx : Crossing.Inv s.cross) :
    ∀ p ∈ t.ctl.busy, p = ((s.step e).cross.cache.evictAdr, (s.step e).cross.cache.refillAdr) := by
  intro p hp
  have hne : ¬ Resting s.cross.core := fun hr => by
    rw [← h.core] at hr
    rw [busy_none h.reachable hr.evict hr.refill] at hp
    cases hp
  obtain ⟨h1, h2⟩ := addresses_step (e := s.wired e) hx (.inr hne)
  obtain rfl := h.busy p hp
  exact Prod.ext h1.symm h2.symm

/-- The outstanding command after an edge has the addresses of the cache. -/
theorem Backs.busy_clk (h : Backs s t) (hx : Crossing.Inv s.cross) :
    ∀ p ∈ (t.clk (s.clkIn f)).ctl.busy,
      p = ((s.step e).cross.cache.evictAdr, (s.step e).cross.cache.refillAdr) := by
  intro p hp
  have hp' : (t.ctl.step (t.sdramIn (s.clkIn f))).busy = some p := hp
  rcases Legality.busy_cases t.ctl (t.sdramIn (s.clkIn f)) with hb | ⟨hf, hb⟩ | hb
  · rw [hb] at hp'
    cases hp'
  · obtain ⟨h1, h2⟩ := addresses_step (e := s.wired e) hx (.inl hf)
    rw [hb] at hp'
    cases hp'
    exact Prod.ext h1.symm h2.symm
  · rw [hb] at hp'
    exact h.busy_step hx p hp'

/-- What a sdram_clk edge does in both views, up to what the bus side writes. -/
theorem Backs.clk (h : Backs s t) (hx : Crossing.Inv s.cross) (hd : e.dq = some f) :
    Transfer.machine.Reachable (t.clk (s.clkIn f)) ∧
    (t.clk (s.clkIn f)).core = (s.step e).cross.core ∧
    (t.clk (s.clkIn f)).chip = (s.step e).chip ∧
    (∀ l, ((t.clk (s.clkIn f)).ram l).do1 = ((s.step e).cross.cache.cacheline l).do1) := by
  have hr : Transfer.machine.Reachable (Transfer.machine.step t (.clk (s.clkIn f))) :=
    .step h.reachable (h.legal hx)
  refine ⟨hr, ?_, ?_, fun l => ?_⟩
  · simp only [System.step, Crossing.System.step, wired_dq, hd, Option.map_some, Option.elim,
      Transfer.core_clk, h.sdramIn, h.core]
  · simp only [System.step, hd, Option.elim, Transfer.System.clk, h.core, h.chip]
    rfl
  · have hs : (t.ram l).storage = (s.cross.cache.cacheline l).storage := congrFun h.content l
    simp only [System.step, Crossing.System.step, do1_cacheStep, wired_dq, hd, Option.map_some,
      Option.elim, Transfer.System.clk, Transfer.System.cacheWe, Crossing.System.port1, h.sdramIn,
      h.core, Dpram.clk1, hs]
    split <;> rfl

/-- STEP: an edge at which the bus side does not write. -/
theorem Backs.quiet (h : Backs s t) (hx : Crossing.Inv s.cross) (hw : ¬ BusWrites s.cross e) :
    Backs (s.step e) (e.dq.elim t fun f => t.clk (s.clkIn f)) := by
  have hw' : ¬ BusWrites s.cross (s.wired e) := by simpa [BusWrites] using hw
  have hcon := content_of_not_busWrites hw'
  rw [wired_dq] at hcon
  cases hd : e.dq with
  | none =>
    rw [hd] at hcon
    refine ⟨h.reachable, ?_, ?_, h.content.trans hcon.symm, fun l => ?_, h.busy_step hx, h.asleep⟩
    · simp [System.step, Crossing.System.step, hd, h.core]
    · simp [System.step, hd, h.chip]
    · simp [System.step, Crossing.System.step, do1_cacheStep, hd, h.do1]
  | some f =>
    obtain ⟨h1, h2, h3, h4⟩ := h.clk hx hd
    refine ⟨h1, h2, h3, ?_, h4, h.busy_clk hx, asleep_clk h.asleep⟩
    rw [hd] at hcon
    refine Eq.trans (funext fun l => ?_) hcon.symm
    have hs : (t.ram l).storage = (s.cross.cache.cacheline l).storage := congrFun h.content l
    simp only [Transfer.System.content, Transfer.System.clk, Transfer.System.cacheWe, h.sdramIn,
      h.core, Dpram.clk1, hs, Option.map_some, Option.elim, Crossing.System.port1]
    split <;> rfl

/-- STEP: an edge at which the bus side writes the RAMs. No command is outstanding then. -/
theorem Backs.write (h : Backs s t) (hx : Crossing.Inv s.cross) (hw : BusWrites s.cross e) :
    ∃ t', Backs (s.step e) t' := by
  obtain ⟨b, -, hack, -⟩ := hw
  obtain ⟨hrest, hE, hR⟩ := resting_of_ack hx hack
  have hrest' := hrest
  rw [← h.core] at hrest'
  have hnone := busy_none h.reachable hrest'.evict hrest'.refill
  cases hd : e.dq with
  | none =>
    have hr : Transfer.machine.Reachable (Transfer.machine.step t
        (.host (EndToEnd.content (s.step e).cross.cache))) := .step h.reachable hnone
    refine ⟨_, hr, ?_, ?_, rfl, fun l => ?_, h.busy_step hx, h.asleep⟩
    · simp [System.step, Crossing.System.step, hd, ← h.core]
      rfl
    · simp [System.step, hd, ← h.chip]
      rfl
    · simp [System.step, Crossing.System.step, do1_cacheStep, hd, ← h.do1]
      rfl
  | some f =>
    obtain ⟨h1, h2, h3, h4⟩ := h.clk hx hd
    have hnone' : (t.clk (s.clkIn f)).ctl.busy = none := by
      rcases Legality.busy_cases t.ctl (t.sdramIn (s.clkIn f)) with hb | ⟨hf, -⟩ | hb
      · exact hb
      · simp [Transfer.System.sdramIn, System.clkIn, hE, hR] at hf
      · exact hb.trans hnone
    have hr : Transfer.machine.Reachable (Transfer.machine.step (t.clk (s.clkIn f))
        (.host (EndToEnd.content (s.step e).cross.cache))) := .step h1 hnone'
    exact ⟨_, hr, h2, h3, rfl, h4, h.busy_clk hx, asleep_clk h.asleep⟩

end Backs

end DsdOrsoc.Yadmc.EndToEnd
