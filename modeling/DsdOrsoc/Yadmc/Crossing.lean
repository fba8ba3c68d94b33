import DsdOrsoc.Schemes.Machine
import DsdOrsoc.Yadmc.Transfer
import DsdOrsoc.Yadmc.Pace

/-! The command loop of `yadmc` across its two clock domains.

    The cache FSM in the sys_clk domain and `yadmc_sdram16` in the sdram_clk domain talk through
    three toggle synchronizers. Either clock may rise, or both at once; a register takes its new
    value at the edges of its own clock, from the values before the edge. The configuration
    registers are written from the bus at any time.

        FREE ──▶ SENT ──▶ PENDING ──▶ SERVING ──▶ ACKED ──▶ FREE
           miss     flag      start       finish     command_ack

    The observer `log` collects what happens. Every reachable log is a sequence of ROUNDS (one miss,
    one start, one finish, one acknowledge in WAIT_ACK, all of the same command), the last of which
    may be incomplete. -/

namespace DsdOrsoc.Yadmc.Crossing
open Schemes

/-- A command with the addresses captured for it; an eviction is followed by the refill. -/
structure Command where
  evict : Bool
  evictAdr : LineAdr
  refillAdr : LineAdr
  deriving DecidableEq

/-- A miss in CHECK_HIT, start and end of an execution with the addresses it sees, and the arrival
    of `command_ack` with the state it finds the cache FSM in. -/
inductive Event where
  | miss (c : Command)
  | start (c : Command)
  | finish (evictAdr refillAdr : LineAdr)
  | ack (state : CacheState)
  deriving DecidableEq

/-- The registers of both domains and the events so far, latest first. -/
structure System where
  cache : Cache
  syncEvict : Sync
  syncRefill : Sync
  syncAck : Sync
  core : Sdram16
  cfg0 : BitVec 32
  cfg1 : BitVec 32
  log : List Event

/-- The Wishbone inputs of a sys_clk edge. -/
structure Bus where
  wb : Wb
  cyc : Bool
  stb : Bool

/-- Which clocks rise, with the inputs sampled there. -/
inductive Edge where
  | sys (b : Bus)
  | sdram (dq : BitVec 16)
  | both (b : Bus) (dq : BitVec 16)

namespace Edge

/-- The bus inputs if sys_clk rises. -/
def bus : Edge → Option Bus
  | .sys b | .both b _ => some b
  | .sdram _ => none

/-- The data pins if sdram_clk rises. -/
def dq : Edge → Option (BitVec 16)
  | .sdram d | .both _ d => some d
  | .sys _ => none

end Edge

namespace System

variable (s : System) (e : Edge)

def cacheIn (b : Bus) : CacheIn :=
  { wb := b.wb, cyc := b.cyc, stb := b.stb, commandAck := s.syncAck.flago }

def sdramIn (dq : BitVec 16) : SdramIn where
  commandEvict := s.syncEvict.flago
  commandRefill := s.syncRefill.flago
  evictAdr := s.cache.evictAdr
  refillAdr := s.cache.refillAdr
  cfg0 := s.cfg0
  cfg1 := s.cfg1
  cacheDatI := Transfer.lanes fun l => (s.cache.cacheline l).do1
  dqInPort := dq

/-- `command_evict` at a sys_clk edge. -/
def commandEvict : Bool := e.bus.elim false fun b => (s.cache.out (s.cacheIn b)).commandEvict

/-- `command_refill` at a sys_clk edge. -/
def commandRefill : Bool := e.bus.elim false fun b => (s.cache.out (s.cacheIn b)).commandRefill

/-- `sdram_command_ack` at a sdram_clk edge. -/
def commandAck : Bool := e.dq.elim false fun d => s.core.commandAck (s.sdramIn d)

/-- Port 1 of the cache RAM of a lane at a sdram_clk edge. -/
def port1 (d : BitVec 16) (l : Lane) (r : Dpram 11 8) : Dpram 11 8 :=
  r.clk1 (s.core.cacheAdrO (s.sdramIn d)) ((s.core.out (s.sdramIn d)).cacheWe.getLsbD l)
    (laneByte s.core.cacheDatO l)

/-- The cache at an edge. Of two writes to one byte at once the one of port 1 stays. -/
def cacheStep : Edge → Cache
  | .sys b => s.cache.sysClk (s.cacheIn b)
  | .sdram d => { s.cache with cacheline := fun l => s.port1 d l (s.cache.cacheline l) }
  | .both b d =>
    let c := s.cache.sysClk (s.cacheIn b)
    { c with cacheline := fun l => { s.port1 d l (c.cacheline l) with
        do1 := (s.port1 d l (s.cache.cacheline l)).do1 } }

/-- `yadmc_cfg0_sel` and `yadmc_cfg1_sel` with `wb_we_i`, by `wb_adr_i[27:0]`. -/
def cfgWrite (b : Bus) (adr : BitVec 28) : Bool :=
  b.cyc && b.stb && decide (b.wb.adr.extractLsb' 0 28 = adr) && b.wb.we

/-- The miss at a sys_clk edge, with what `evict_adr` and `refill_adr` take. -/
def missed : Option Command :=
  e.bus.bind fun b =>
    if s.commandEvict e || s.commandRefill e then
      some ⟨s.commandEvict e, (s.cache.sysClk (s.cacheIn b)).evictAdr,
        (s.cache.sysClk (s.cacheIn b)).refillAdr⟩
    else none

/-- The execution that starts at a sdram_clk edge. -/
def started : Option Command :=
  e.dq.bind fun d =>
    match s.core.state, (s.core.out (s.sdramIn d)).nextState with
    | .idle, .prechargeBeforeWrite => some ⟨true, s.cache.evictAdr, s.cache.refillAdr⟩
    | .idle, .prechargeBeforeRead => some ⟨false, s.cache.evictAdr, s.cache.refillAdr⟩
    | _, _ => none

/-- `command_ack` reaches the cache FSM at a sys_clk edge. -/
def acked : Bool := e.bus.isSome && s.syncAck.flago

def events : List Event :=
  (s.missed e).toList.map .miss ++ (if s.acked e then [.ack s.cache.state] else []) ++
  (s.started e).toList.map .start ++
  (if s.commandAck e then [.finish s.cache.evictAdr s.cache.refillAdr] else [])

/-- One edge: every register of a clock that rises takes its new value. -/
def step : System where
  cache := s.cacheStep e
  syncEvict := (if e.dq.isSome then s.syncEvict.clk1 else s.syncEvict).clk0 (s.commandEvict e)
  syncRefill := (if e.dq.isSome then s.syncRefill.clk1 else s.syncRefill).clk0 (s.commandRefill e)
  syncAck := (if e.bus.isSome then s.syncAck.clk1 else s.syncAck).clk0 (s.commandAck e)
  core := e.dq.elim s.core fun d => s.core.clk (s.sdramIn d)
  cfg0 := e.bus.elim s.cfg0 fun b => if cfgWrite b 0xC000000 then b.wb.dat else s.cfg0
  cfg1 := e.bus.elim s.cfg1 fun b => if cfgWrite b 0xC000004 then b.wb.dat else s.cfg1
  log := s.events e ++ s.log

end System

/-- Both sides out of reset; every bus input and every order of the clock edges is allowed. -/
def machine : Machine System Edge where
  start s := s.cache.state = .idle ∧ s.syncEvict = ⟨false, false, false, false⟩ ∧
    s.syncRefill = ⟨false, false, false, false⟩ ∧ s.syncAck = ⟨false, false, false, false⟩ ∧
    s.core.state = .reset ∧ s.core.commandEvictPending = false ∧
    s.core.commandRefillPending = false ∧ s.cfg0 = 0x27100023 ∧ s.cfg1 = 0x012C0952 ∧ s.log = []
  legal _ _ := True
  step := System.step

/-- What happens for one command. -/
def round (c : Command) : List Event :=
  [.miss c, .start c, .finish c.evictAdr c.refillAdr, .ack .waitAck]

/-! ### The sdram_clk side -/

section Core

variable {c : Sdram16} {i : SdramIn}

/-- Without a command the controller only initializes and refreshes. -/
theorem rest_clk (hr : serving c.state = false)
    (he : (i.commandEvict || c.commandEvictPending) = false)
    (hf : (i.commandRefill || c.commandRefillPending) = false) :
    serving (c.clk i).state = false ∧ (c.clk i).commandEvictPending = false ∧
    (c.clk i).commandRefillPending = false ∧ c.commandAck i = false := by
  rw [Sdram16.commandAck, Sdram16.clk]
  fun_cases Sdram16.out c i <;> simp_all [serving]

/-- With one command asserted the controller goes on resting, or starts it from IDLE. -/
theorem accept_clk {evict : Bool} (hr : serving c.state = false)
    (he : (i.commandEvict || c.commandEvictPending) = evict)
    (hf : (i.commandRefill || c.commandRefillPending) = !evict) :
    (c.clk i).commandEvictPending = evict ∧ (c.clk i).commandRefillPending = (!evict) ∧
    c.commandAck i = false ∧
    ((c.state = .idle ∧
        (c.clk i).state = if evict then .prechargeBeforeWrite else .prechargeBeforeRead) ∨
      serving (c.clk i).state = false) := by
  rw [Sdram16.commandAck, Sdram16.clk]
  fun_cases Sdram16.out c i <;> simp_all [serving]

/-- An execution goes on until its acknowledge. -/
theorem serve_clk (hs : serving c.state = true) :
    (c.commandAck i = false ∧ serving (c.clk i).state = true ∧
      (c.clk i).commandEvictPending = (i.commandEvict || c.commandEvictPending) ∧
      (c.clk i).commandRefillPending = (i.commandRefill || c.commandRefillPending)) ∨
    (c.commandAck i = true ∧ serving (c.clk i).state = false ∧
      (c.clk i).commandEvictPending = false ∧ (c.clk i).commandRefillPending = false) := by
  rw [Sdram16.commandAck, Sdram16.clk]
  fun_cases Sdram16.out c i <;> simp_all [serving]

end Core

/-! ### The sys_clk side -/

/-- The cache FSM waits for the acknowledge of `c`. -/
structure Waiting (c : Command) (s : System) : Prop where
  state : s.cache.state = .waitAck
  evictAdr : s.cache.evictAdr = c.evictAdr
  refillAdr : s.cache.refillAdr = c.refillAdr

section Sys

variable {s : System} {e : Edge} {c : Command}

/-- A sys_clk edge of the cache FSM outside WAIT_ACK. -/
theorem cache_out {x : Cache} {i : CacheIn} (h : x.state ≠ .waitAck) :
    ((x.out i).nextState ≠ .waitAck ∧ (x.out i).commandEvict = false ∧
      (x.out i).commandRefill = false) ∨
    ((x.out i).nextState = .waitAck ∧ (x.out i).commandRefill = !(x.out i).commandEvict) := by
  fun_cases Cache.out x i <;> simp_all
  split <;> simp

/-- A sys_clk edge of the cache FSM in WAIT_ACK. -/
theorem cache_wait {x : Cache} {i : CacheIn} (h : x.state = .waitAck) :
    (x.out i).nextState = (if i.commandAck then .idle else .waitAck) ∧
      (x.out i).commandEvict = false ∧
      (x.out i).commandRefill = false := by
  fun_cases Cache.out x i <;> simp_all

/-- Outside WAIT_ACK an edge leads there exactly with a miss. -/
theorem miss_step (h : s.cache.state ≠ .waitAck) :
    (s.missed e = none ∧ (s.step e).cache.state ≠ .waitAck ∧ s.commandEvict e = false ∧
      s.commandRefill e = false) ∨
    (∃ c, s.missed e = some c ∧ Waiting c (s.step e) ∧ s.commandEvict e = c.evict ∧
      s.commandRefill e = !c.evict) := by
  cases e with
  | sdram d => exact .inl ⟨rfl, h, rfl, rfl⟩
  | sys b | both b d =>
    rcases cache_out (i := s.cacheIn b) h with ⟨h1, h2, h3⟩ | ⟨h1, h2⟩
    · refine .inl ⟨?_, h1, h2, h3⟩
      simp [System.missed, System.commandEvict, System.commandRefill, Edge.bus, h2, h3]
    · refine .inr ⟨⟨(s.cache.out (s.cacheIn b)).commandEvict,
        (s.cache.sysClk (s.cacheIn b)).evictAdr, (s.cache.sysClk (s.cacheIn b)).refillAdr⟩,
        ?_, ⟨h1, rfl, rfl⟩, rfl, h2⟩
      simp [System.missed, System.commandEvict, System.commandRefill, Edge.bus, h2]

/-- In WAIT_ACK the cache FSM sends nothing and keeps its addresses. -/
theorem wait_step (hw : Waiting c s) :
    s.commandEvict e = false ∧ s.commandRefill e = false ∧ s.missed e = none ∧
    (s.acked e = false → Waiting c (s.step e)) ∧
    (s.acked e = true → (s.step e).cache.state = .idle) := by
  cases e with
  | sdram d =>
    exact ⟨rfl, rfl, rfl, fun _ => ⟨hw.state, hw.evictAdr, hw.refillAdr⟩, fun h => by cases h⟩
  | sys b | both b d =>
    obtain ⟨h1, h2, h3⟩ := cache_wait (i := s.cacheIn b) hw.state
    refine ⟨h2, h3, ?_, fun ha => ⟨?_, ?_, ?_⟩, fun ha => ?_⟩
    · simp [System.missed, System.commandEvict, System.commandRefill, Edge.bus, h2, h3]
    · refine h1.trans (if_neg ?_)
      simpa [System.cacheIn, System.acked, Edge.bus] using ha
    · rw [← hw.evictAdr]
      simp [System.step, System.cacheStep, Cache.sysClk, h2, h3]
    · rw [← hw.refillAdr]
      simp [System.step, System.cacheStep, Cache.sysClk, h2, h3]
    · exact h1.trans (if_pos (by simpa [System.cacheIn, System.acked, Edge.bus] using ha))

end Sys

/-! ### Phases of a command -/

/-- The controller rests and has no command. -/
structure Resting (c : Sdram16) : Prop where
  rest : serving c.state = false
  evict : c.commandEvictPending = false
  refill : c.commandRefillPending = false

/-- The controller has recorded command `c`. -/
structure Recorded (c : Command) (x : Sdram16) : Prop where
  evict : x.commandEvictPending = c.evict
  refill : x.commandRefillPending = !c.evict

/-- No command. -/
structure Free (L : List Event) (s : System) : Prop where
  state : s.cache.state ≠ .waitAck
  evict : s.syncEvict.Quiet
  refill : s.syncRefill.Quiet
  ack : s.syncAck.Quiet
  core : Resting s.core
  log : s.log = L

/-- The flag of command `c` is in its synchronizer. -/
structure Sent (c : Command) (L : List Event) (s : System) : Prop where
  wait : Waiting c s
  evict : if c.evict then s.syncEvict.Busy else s.syncEvict.Quiet
  refill : if c.evict then s.syncRefill.Quiet else s.syncRefill.Busy
  ack : s.syncAck.Quiet
  core : Resting s.core
  log : s.log = .miss c :: L

/-- Command `c` has crossed. -/
structure Crossed (c : Command) (s : System) : Prop where
  wait : Waiting c s
  evict : s.syncEvict.Quiet
  refill : s.syncRefill.Quiet
  ack : s.syncAck.Quiet
  recorded : Recorded c s.core

structure Pending (c : Command) (L : List Event) (s : System) : Prop extends Crossed c s where
  rest : serving s.core.state = false
  log : s.log = .miss c :: L

structure Serving (c : Command) (L : List Event) (s : System) : Prop extends Crossed c s where
  serves : serving s.core.state = true
  log : s.log = .start c :: .miss c :: L

/-- The acknowledge of command `c` is in its synchronizer. -/
structure Acked (c : Command) (L : List Event) (s : System) : Prop where
  wait : Waiting c s
  evict : s.syncEvict.Quiet
  refill : s.syncRefill.Quiet
  ack : s.syncAck.Busy
  core : Resting s.core
  log : s.log = .finish c.evictAdr c.refillAdr :: .start c :: .miss c :: L

section Step

variable {s : System} {e : Edge} {c : Command} {L : List Event}

theorem started_none (h : ∀ d, e.dq = some d →
    s.core.state ≠ .idle ∨ serving (s.core.clk (s.sdramIn d)).state = false) :
    s.started e = none := by
  rw [System.started]
  cases hd : e.dq with
  | none => rfl
  | some d =>
    rcases h d hd with h | h
    · simp only [Option.bind_some]
      split <;> first | contradiction | rfl
    · rw [show (s.core.clk (s.sdramIn d)).state = (s.core.out (s.sdramIn d)).nextState
        from rfl] at h
      simp only [Option.bind_some]
      split <;> first | rfl | simp_all [serving]

theorem started_some {d : BitVec 16} {evict : Bool} (hd : e.dq = some d)
    (hi : s.core.state = .idle) (h : (s.core.clk (s.sdramIn d)).state =
      if evict then .prechargeBeforeWrite else .prechargeBeforeRead) :
    s.started e = some ⟨evict, s.cache.evictAdr, s.cache.refillAdr⟩ := by
  rw [show (s.core.clk (s.sdramIn d)).state = (s.core.out (s.sdramIn d)).nextState from rfl] at h
  rw [System.started, hd]
  cases evict <;> simp [hi, h]

/-- A synchronizer with nothing in flight, at any edge of its sides. -/
theorem Quiet.edge {y : Sync} (h : y.Quiet) (recv flag : Bool) :
    if flag then ((if recv then y.clk1 else y).clk0 flag).Busy
    else ((if recv then y.clk1 else y).clk0 flag).Quiet := by
  have hr : (if recv then y.clk1 else y).Quiet := by
    cases recv
    exacts [h, h.clk1]
  cases flag
  · simpa [Sync.clk0, Sync.Quiet] using hr
  · simpa using hr.send

/-- A synchronizer with a flag in flight, at any edge of its sides while nothing more is sent. -/
theorem Busy.edge {y : Sync} (h : y.Busy) (recv : Bool) :
    if recv && y.flago then ((if recv then y.clk1 else y).clk0 false).Quiet
    else ((if recv then y.clk1 else y).clk0 false).Busy := by
  cases recv
  · simpa [Sync.clk0, Sync.Busy] using h
  · cases hf : y.flago
    · simpa [Sync.clk0, Sync.Busy] using h.clk1_busy hf
    · simpa [Sync.clk0, Sync.Quiet] using h.clk1_done hf

/-- Without a command the controller goes on resting. -/
theorem Resting.step (hc : Resting s.core) (he : s.syncEvict.flago = false)
    (hf : s.syncRefill.flago = false) :
    Resting (s.step e).core ∧ s.commandAck e = false ∧ s.started e = none := by
  have hd : ∀ d, _ := fun d => rest_clk (i := s.sdramIn d) hc.rest
    (by simp [System.sdramIn, he, hc.evict]) (by simp [System.sdramIn, hf, hc.refill])
  refine ⟨?_, ?_, started_none fun d _ => .inr (hd d).1⟩
  · cases e with
    | sys b => exact hc
    | sdram d | both b d => exact ⟨(hd d).1, (hd d).2.1, (hd d).2.2.1⟩
  · cases e with
    | sys b => rfl
    | sdram d | both b d => exact (hd d).2.2.2

/-- A recorded or arriving command: the controller goes on resting or starts it. -/
theorem accept_step {d : BitVec 16} (hd : e.dq = some d) (hw : Waiting c s)
    (hr : serving s.core.state = false)
    (he : (s.syncEvict.flago || s.core.commandEvictPending) = c.evict)
    (hf : (s.syncRefill.flago || s.core.commandRefillPending) = !c.evict) :
    Recorded c (s.step e).core ∧ s.commandAck e = false ∧
    ((s.started e = none ∧ serving (s.step e).core.state = false) ∨
      (s.started e = some c ∧ serving (s.step e).core.state = true)) := by
  have hcore : (s.step e).core = s.core.clk (s.sdramIn d) := by simp [System.step, hd]
  have hack : s.commandAck e = s.core.commandAck (s.sdramIn d) := by simp [System.commandAck, hd]
  obtain ⟨h1, h2, h3, h4⟩ := accept_clk (i := s.sdramIn d) hr he hf
  rw [hcore, hack]
  refine ⟨⟨h1, h2⟩, h3, ?_⟩
  rcases h4 with ⟨hi, h4⟩ | h4
  · right
    refine ⟨(started_some hd hi h4).trans ?_, ?_⟩
    · rw [hw.evictAdr, hw.refillAdr]
    · rw [h4]
      cases c.evict <;> rfl
  · refine .inl ⟨started_none fun d' hd' => .inr ?_, h4⟩
    rw [hd] at hd'
    cases hd'
    exact h4

theorem log_step (hm : s.missed e = none) (ha : s.acked e = false) (hc : s.commandAck e = false) :
    (s.step e).log = (s.started e).toList.map .start ++ s.log := by
  simp [System.step, System.events, hm, ha, hc]

/-- Nothing is sent, nothing is in flight. -/
theorem syncEvict_quiet (h : s.syncEvict.Quiet) (hs : s.commandEvict e = false) :
    (s.step e).syncEvict.Quiet := by
  rw [System.step, hs]
  exact Quiet.edge h e.dq.isSome false

theorem syncRefill_quiet (h : s.syncRefill.Quiet) (hs : s.commandRefill e = false) :
    (s.step e).syncRefill.Quiet := by
  rw [System.step, hs]
  exact Quiet.edge h e.dq.isSome false

theorem syncAck_quiet (h : s.syncAck.Quiet) (hs : s.commandAck e = false) :
    (s.step e).syncAck.Quiet := by
  rw [System.step, hs]
  exact Quiet.edge h e.bus.isSome false

/-- Without a sdram_clk edge the controller does nothing. -/
theorem core_still (hd : e.dq = none) :
    (s.step e).core = s.core ∧ s.commandAck e = false ∧ s.started e = none := by
  refine ⟨?_, ?_, started_none (by simp [hd])⟩
  · simp [System.step, hd]
  · simp [System.commandAck, hd]

theorem Free.step (h : Free L s) :
    (s.missed e = none ∧ Free L (s.step e)) ∨
      ∃ c, s.missed e = some c ∧ Sent c L (s.step e) := by
  have hack : s.acked e = false := by simp [System.acked, h.ack.flago]
  obtain ⟨hrest, hcack, hstart⟩ := h.core.step (e := e) h.evict.flago h.refill.flago
  have hA := syncAck_quiet h.ack hcack
  rcases miss_step (e := e) h.state with ⟨hm, hst, he, hf⟩ | ⟨c, hm, hw, he, hf⟩
  · left
    refine ⟨hm, hst, syncEvict_quiet h.evict he, syncRefill_quiet h.refill hf, hA, hrest, ?_⟩
    rw [log_step hm hack hcack, hstart, h.log]
    rfl
  · right
    have hE := Quiet.edge h.evict e.dq.isSome (s.commandEvict e)
    have hR := Quiet.edge h.refill e.dq.isSome (s.commandRefill e)
    rw [he] at hE
    rw [hf] at hR
    refine ⟨c, hm, hw, ?_, ?_, hA, hrest, ?_⟩
    · rw [System.step, he]
      exact hE
    · rw [System.step, hf]
      cases hv : c.evict <;> rw [hv] at hR <;> exact hR
    · simp [System.step, System.events, hm, hack, hstart, hcack, h.log]

/-- While the FSM waits and no acknowledge arrives, the sys_clk side does nothing. -/
theorem Waiting.step (hw : Waiting c s) (ha : s.syncAck.flago = false) :
    Waiting c (s.step e) ∧ s.commandEvict e = false ∧ s.commandRefill e = false ∧
    s.missed e = none ∧ s.acked e = false := by
  have hack : s.acked e = false := by simp [System.acked, ha]
  obtain ⟨h1, h2, h3, h4, -⟩ := wait_step (e := e) hw
  exact ⟨h4 hack, h1, h2, h3, hack⟩

/-- The command on its way to a start. -/
theorem Crossed.accepted (hx : Crossed c (s.step e))
    (hlog : (s.step e).log = (s.started e).toList.map .start ++ .miss c :: L)
    (hst : (s.started e = none ∧ serving (s.step e).core.state = false) ∨
      (s.started e = some c ∧ serving (s.step e).core.state = true)) :
    Pending c L (s.step e) ∨ Serving c L (s.step e) := by
  rcases hst with ⟨hst, hr⟩ | ⟨hst, hr⟩
  · rw [hst] at hlog
    exact .inl ⟨hx, hr, hlog⟩
  · rw [hst] at hlog
    exact .inr ⟨hx, hr, hlog⟩

/-- The flag is not seen at this edge. -/
theorem Sent.stay (h : Sent c L s)
    (hnot : e.dq = none ∨ (s.syncEvict.flago = false ∧ s.syncRefill.flago = false))
    (hE : if c.evict then (s.step e).syncEvict.Busy else (s.step e).syncEvict.Quiet)
    (hR : if c.evict then (s.step e).syncRefill.Quiet else (s.step e).syncRefill.Busy) :
    Sent c L (s.step e) := by
  obtain ⟨hw, -, -, hm, hack⟩ := h.wait.step (e := e) h.ack.flago
  obtain ⟨hrest, hcack, hst⟩ : Resting (s.step e).core ∧ s.commandAck e = false ∧
      s.started e = none := by
    rcases hnot with hd | ⟨he, hf⟩
    · obtain ⟨hcore, hcack, hst⟩ := core_still (s := s) hd
      exact ⟨hcore ▸ h.core, hcack, hst⟩
    · exact h.core.step he hf
  refine ⟨hw, hE, hR, syncAck_quiet h.ack hcack, hrest, ?_⟩
  rw [log_step hm hack hcack, hst, h.log]
  rfl

/-- The flag is seen at this edge. -/
theorem Sent.arrive {d : BitVec 16} (h : Sent c L s) (hd : e.dq = some d)
    (he : s.syncEvict.flago = c.evict) (hf : s.syncRefill.flago = !c.evict)
    (hE : (s.step e).syncEvict.Quiet) (hR : (s.step e).syncRefill.Quiet) :
    Pending c L (s.step e) ∨ Serving c L (s.step e) := by
  obtain ⟨hw, -, -, hm, hack⟩ := h.wait.step (e := e) h.ack.flago
  obtain ⟨hrec, hcack, hst⟩ := accept_step hd h.wait h.core.rest
    (by rw [h.core.evict, he, Bool.or_false]) (by rw [h.core.refill, hf, Bool.or_false])
  have hx : Crossed c (s.step e) := ⟨hw, hE, hR, syncAck_quiet h.ack hcack, hrec⟩
  refine hx.accepted ?_ hst
  rw [log_step hm hack hcack, h.log]

theorem Sent.step (h : Sent c L s) :
    Sent c L (s.step e) ∨ Pending c L (s.step e) ∨ Serving c L (s.step e) := by
  obtain ⟨-, hE, hR, -, -⟩ := h.wait.step (e := e) h.ack.flago
  have hsE : (s.step e).syncEvict =
      (if e.dq.isSome then s.syncEvict.clk1 else s.syncEvict).clk0 false := by
    rw [System.step, hE]
  have hsR : (s.step e).syncRefill =
      (if e.dq.isSome then s.syncRefill.clk1 else s.syncRefill).clk0 false := by
    rw [System.step, hR]
  have hbE := h.evict
  have hbR := h.refill
  cases hv : c.evict with
  | true =>
    rw [hv] at hbE hbR
    have hnext := Busy.edge hbE e.dq.isSome
    rw [← hsE] at hnext
    have hq := syncRefill_quiet hbR hR
    cases ha : e.dq.isSome && s.syncEvict.flago with
    | false =>
      rw [ha] at hnext
      refine .inl (h.stay ?_ (by rw [hv]; exact hnext) (by rw [hv]; exact hq))
      cases hd : e.dq with
      | none => exact .inl rfl
      | some d => exact .inr ⟨by simpa [hd] using ha, Sync.Quiet.flago hbR⟩
    | true =>
      rw [ha] at hnext
      obtain ⟨hd, hf⟩ := (Bool.and_eq_true _ _).mp ha
      obtain ⟨d, hd⟩ := Option.isSome_iff_exists.1 hd
      exact .inr (h.arrive hd (by rw [hf, hv]) (by rw [Sync.Quiet.flago hbR, hv]; rfl) hnext hq)
  | false =>
    rw [hv] at hbE hbR
    have hnext := Busy.edge hbR e.dq.isSome
    rw [← hsR] at hnext
    have hq := syncEvict_quiet hbE hE
    cases ha : e.dq.isSome && s.syncRefill.flago with
    | false =>
      rw [ha] at hnext
      refine .inl (h.stay ?_ (by rw [hv]; exact hq) (by rw [hv]; exact hnext))
      cases hd : e.dq with
      | none => exact .inl rfl
      | some d => exact .inr ⟨Sync.Quiet.flago hbE, by simpa [hd] using ha⟩
    | true =>
      rw [ha] at hnext
      obtain ⟨hd, hf⟩ := (Bool.and_eq_true _ _).mp ha
      obtain ⟨d, hd⟩ := Option.isSome_iff_exists.1 hd
      exact .inr (h.arrive hd (by rw [Sync.Quiet.flago hbE, hv]) (by rw [hf, hv]; rfl) hq hnext)

theorem Pending.step (h : Pending c L s) : Pending c L (s.step e) ∨ Serving c L (s.step e) := by
  obtain ⟨hw, hE, hR, hm, hack⟩ := h.wait.step (e := e) h.ack.flago
  cases hd : e.dq with
  | none =>
    obtain ⟨hcore, hcack, hst⟩ := core_still (s := s) hd
    refine .inl ⟨⟨hw, syncEvict_quiet h.evict hE, syncRefill_quiet h.refill hR,
      syncAck_quiet h.ack hcack, hcore ▸ h.recorded⟩, hcore ▸ h.rest, ?_⟩
    rw [log_step hm hack hcack, hst, h.log]
    rfl
  | some d =>
    obtain ⟨hrec, hcack, hst⟩ := accept_step hd h.wait h.rest
      (by rw [h.evict.flago, h.recorded.evict, Bool.false_or])
      (by rw [h.refill.flago, h.recorded.refill, Bool.false_or])
    have hx : Crossed c (s.step e) := ⟨hw, syncEvict_quiet h.evict hE,
      syncRefill_quiet h.refill hR, syncAck_quiet h.ack hcack, hrec⟩
    refine hx.accepted ?_ hst
    rw [log_step hm hack hcack, h.log]

theorem Serving.step (h : Serving c L s) :
    (s.commandAck e = false ∧ Serving c L (s.step e)) ∨ Acked c L (s.step e) := by
  obtain ⟨hw, hE, hR, hm, hack⟩ := h.wait.step (e := e) h.ack.flago
  have hqE := syncEvict_quiet h.evict hE
  have hqR := syncRefill_quiet h.refill hR
  cases hd : e.dq with
  | none =>
    obtain ⟨hcore, hcack, hst⟩ := core_still (s := s) hd
    refine .inl ⟨hcack, ⟨hw, hqE, hqR, syncAck_quiet h.ack hcack, hcore ▸ h.recorded⟩,
      hcore ▸ h.serves, ?_⟩
    rw [log_step hm hack hcack, hst, h.log]
    rfl
  | some d =>
    have hcore : (s.step e).core = s.core.clk (s.sdramIn d) := by simp [System.step, hd]
    have hca : s.commandAck e = s.core.commandAck (s.sdramIn d) := by
      simp [System.commandAck, hd]
    have hst : s.started e = none := started_none fun _ _ => .inl fun h' => by
      have := h.serves
      rw [h'] at this
      cases this
    rcases serve_clk (i := s.sdramIn d) h.serves with ⟨h1, h2, h3, h4⟩ | ⟨h1, h2, h3, h4⟩
    · have hcack := hca.trans h1
      refine .inl ⟨hcack, ⟨hw, hqE, hqR, syncAck_quiet h.ack hcack, ?_⟩, hcore ▸ h2, ?_⟩
      · rw [hcore]
        refine ⟨h3.trans ?_, h4.trans ?_⟩
        · rw [System.sdramIn, h.evict.flago, h.recorded.evict, Bool.false_or]
        · rw [System.sdramIn, h.refill.flago, h.recorded.refill, Bool.false_or]
      · rw [log_step hm hack hcack, hst, h.log]
        rfl
    · have hcack := hca.trans h1
      have hA := Quiet.edge h.ack e.bus.isSome (s.commandAck e)
      rw [hcack] at hA
      refine .inr ⟨hw, hqE, hqR, ?_, ?_, ?_⟩
      · rw [System.step, hcack]
        exact hA
      · rw [hcore]
        exact ⟨h2, h3, h4⟩
      · simp [System.step, System.events, hm, hack, hst, hcack, h.log, h.wait.evictAdr,
          h.wait.refillAdr]

theorem Acked.step (h : Acked c L s) :
    Acked c L (s.step e) ∨ Free ((round c).reverse ++ L) (s.step e) := by
  obtain ⟨hrest, hcack, hstart⟩ := h.core.step (e := e) h.evict.flago h.refill.flago
  obtain ⟨hE, hR, hm, hstay, hgo⟩ := wait_step (e := e) h.wait
  have hA := Busy.edge h.ack e.bus.isSome
  have hqE := syncEvict_quiet h.evict hE
  have hqR := syncRefill_quiet h.refill hR
  cases hack : s.acked e with
  | false =>
    rw [show (e.bus.isSome && s.syncAck.flago) = false from hack] at hA
    refine .inl ⟨hstay hack, hqE, hqR, ?_, hrest, ?_⟩
    · rw [System.step, hcack]
      exact hA
    · rw [log_step hm hack hcack, hstart, h.log]
      rfl
  | true =>
    rw [show (e.bus.isSome && s.syncAck.flago) = true from hack] at hA
    refine .inr ⟨?_, hqE, hqR, ?_, hrest, ?_⟩
    · rw [hgo hack]
      simp
    · rw [System.step, hcack]
      exact hA
    · simp [System.step, System.events, hm, hack, hstart, hcack, h.log, h.wait.state, round]

end Step

/-! ### Every reachable log -/

/-- The phase of the loop, behind the complete rounds of the commands `done`. -/
def Inv (s : System) : Prop :=
  ∃ done : List Command, ∃ L, L.reverse = done.flatMap round ∧
    (Free L s ∨ ∃ c, Sent c L s ∨ Pending c L s ∨ Serving c L s ∨ Acked c L s)

theorem inv_start {s : System} (h : machine.start s) : Inv s := by
  obtain ⟨h1, h2, h3, h4, h5, h6, h7, -, -, h10⟩ := h
  refine ⟨[], [], rfl, .inl ⟨by simp [h1], ?_, ?_, ?_, ⟨by simp [h5, serving], h6, h7⟩, h10⟩⟩
  · rw [h2]; exact ⟨rfl, rfl, rfl⟩
  · rw [h3]; exact ⟨rfl, rfl, rfl⟩
  · rw [h4]; exact ⟨rfl, rfl, rfl⟩

/-- STEP: an edge keeps the phase or leads to the next one. -/
theorem inv_step {s : System} (h : Inv s) (e : Edge) : Inv (s.step e) := by
  obtain ⟨done, L, hL, h | ⟨c, h | h | h | h⟩⟩ := h
  · rcases h.step (e := e) with ⟨-, h⟩ | ⟨c, -, h⟩
    · exact ⟨done, L, hL, .inl h⟩
    · exact ⟨done, L, hL, .inr ⟨c, .inl h⟩⟩
  · rcases h.step (e := e) with h | h | h
    · exact ⟨done, L, hL, .inr ⟨c, .inl h⟩⟩
    · exact ⟨done, L, hL, .inr ⟨c, .inr (.inl h)⟩⟩
    · exact ⟨done, L, hL, .inr ⟨c, .inr (.inr (.inl h))⟩⟩
  · rcases h.step (e := e) with h | h
    · exact ⟨done, L, hL, .inr ⟨c, .inr (.inl h)⟩⟩
    · exact ⟨done, L, hL, .inr ⟨c, .inr (.inr (.inl h))⟩⟩
  · rcases h.step (e := e) with ⟨-, h⟩ | h
    · exact ⟨done, L, hL, .inr ⟨c, .inr (.inr (.inl h))⟩⟩
    · exact ⟨done, L, hL, .inr ⟨c, .inr (.inr (.inr h))⟩⟩
  · rcases h.step (e := e) with h | h
    · exact ⟨done, L, hL, .inr ⟨c, .inr (.inr (.inr h))⟩⟩
    · refine ⟨done ++ [c], (round c).reverse ++ L, ?_, .inl h⟩
      simp [hL]

/-- RUN: the invariant holds in every reachable state. -/
theorem inv_reachable {s : System} (hs : machine.Reachable s) : Inv s :=
  hs.invariant (fun _ h => inv_start h) (fun _ e h _ => inv_step h e)

/-- The log is a sequence of rounds, the last of which may be incomplete. -/
theorem Inv.rounds {s : System} (h : Inv s) : ∃ (done : List Command) (c : Command) (k : ℕ), k < 4 ∧
    s.log.reverse = done.flatMap round ++ (round c).take k := by
  obtain ⟨done, L, hL, h | ⟨c, h | h | h | h⟩⟩ := h
  · exact ⟨done, ⟨false, 0, 0⟩, 0, by omega, by simp [h.log, hL]⟩
  · exact ⟨done, c, 1, by omega, by simp [h.log, hL, round]⟩
  · exact ⟨done, c, 1, by omega, by simp [h.log, hL, round]⟩
  · exact ⟨done, c, 2, by omega, by simp [h.log, hL, round]⟩
  · exact ⟨done, c, 3, by omega, by simp [h.log, hL, round]⟩

/-- Throughout an execution the address inputs are those of the command that was started last. -/
theorem Inv.addresses {s : System} (h : Inv s) (hs : serving s.core.state = true) :
    ∃ c L, s.log = .start c :: .miss c :: L ∧ s.cache.evictAdr = c.evictAdr ∧
      s.cache.refillAdr = c.refillAdr := by
  obtain ⟨done, L, -, h | ⟨c, h | h | h | h⟩⟩ := h
  · rw [h.core.rest] at hs
    cases hs
  · rw [h.core.rest] at hs
    cases hs
  · rw [h.rest] at hs
    cases hs
  · exact ⟨c, L, h.log, h.wait.evictAdr, h.wait.refillAdr⟩
  · rw [h.core.rest] at hs
    cases hs

end DsdOrsoc.Yadmc.Crossing
