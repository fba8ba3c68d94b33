import DsdOrsoc.Schemes.Progress
import DsdOrsoc.Yadmc.Legality
import DsdOrsoc.Yadmc.Chip

/-! The controller between its two memories: the SDRAM chip behind the registered pins and port 1 of
    the cache RAMs. The bus side may rewrite the cache RAMs while no command is outstanding, and the
    chip powers up with anything in it, in the middle of any burst.

    The invariant says what the chip is doing in each state of the machine: it is CALM (no burst,
    its data lines off) outside the bursts, it takes beat `k - 1` when the burst counter is `k` in
    WRITEBURST, and it is `m` edges into the read burst in the states from READREG1 on. -/

namespace DsdOrsoc.Yadmc.Transfer
open Schemes Legality

/-- The content of the four byte lanes of the cache RAMs. -/
abbrev Content := Lane → BitVec 11 → Byte

/-- Controller, chip and cache RAMs, and a counter of the writes of port 1 to each byte. -/
structure System where
  ctl : Legality.System
  chip : Chip
  ram : Lane → Dpram 11 8
  writes : BitVec 11 → Lane → ℕ

/-- Inputs of a sdram_clk edge: command port, configuration, and what undriven data lines carry. -/
structure ClkIn where
  commandEvict : Bool
  commandRefill : Bool
  evictAdr : LineAdr
  refillAdr : LineAdr
  cfg0 : BitVec 32
  cfg1 : BitVec 32
  float : BitVec 16

/-- A sdram_clk edge, or new content of the cache RAMs from the bus side. -/
inductive Edge where
  | clk (i : ClkIn)
  | host (content : Content)

/-- A word put together from its byte lanes. -/
def lanes (f : Lane → Byte) : BitVec 32 := (f 3 ++ f 2) ++ (f 1 ++ f 0)

namespace System

variable (s : System) (i : ClkIn)

def core : Sdram16 := s.ctl.core

def content : Content := fun l => (s.ram l).storage

/-- What the controller sees: the read registers of port 1 and the data lines. -/
def sdramIn : SdramIn where
  commandEvict := i.commandEvict
  commandRefill := i.commandRefill
  evictAdr := i.evictAdr
  refillAdr := i.refillAdr
  cfg0 := i.cfg0
  cfg1 := i.cfg1
  cacheDatI := lanes fun l => (s.ram l).do1
  dqInPort := s.chip.busOut s.core.pins i.float

/-- The byte lanes that port 1 writes. -/
def cacheWe (l : Lane) : Bool := (s.core.out (s.sdramIn i)).cacheWe.getLsbD l

/-- A sdram_clk edge. -/
def clk : System where
  ctl := s.ctl.step (s.sdramIn i)
  chip := s.chip.clk s.core.pins i.float
  ram l := (s.ram l).clk1 (s.core.cacheAdrO (s.sdramIn i)) (s.cacheWe i l)
    (laneByte s.core.cacheDatO l)
  writes a l := s.writes a l +
    if s.cacheWe i l = true ∧ a = s.core.cacheAdrO (s.sdramIn i) then 1 else 0

def step : Edge → System
  | .clk i => s.clk i
  | .host f => { s with ram := fun l => { s.ram l with storage := f l } }

/-- The command port keeps its rules; the bus side leaves the RAMs alone during a command. -/
def legal : Edge → Prop
  | .clk i => s.ctl.legal (s.sdramIn i)
  | .host _ => s.ctl.busy = none

end System

/-- The composition from reset of the controller; chip, RAMs and pins hold anything. -/
def machine : Machine System Edge where
  start s := Legality.machine.start s.ctl
  legal := System.legal
  step := System.step

/-! ### The chip in step with the history -/

/-- Once it has executed the command on the pins, the chip has the open rows of the history. -/
def Synced (s : System) : Prop := rowsAfter s.chip.rows s.core.pins.cmd = openRow s.ctl.hist

/-- The command starts no burst. -/
def Cmd.still : Cmd → Prop
  | .read _ _ _ | .write _ _ _ => False
  | _ => True

/-- In step with the history and clocked at the next two edges. -/
structure Clocked (s : System) : Prop where
  synced : Synced s
  ckeZ : s.chip.ckeZ = true
  cke : s.core.pins.cke = true

/-- No burst, data lines off, and no burst starts at the next edge. -/
structure Calm (s : System) : Prop extends Clocked s where
  burst : s.chip.burst = none
  pipe : s.chip.pipe = none
  dq : s.chip.dq = none
  still : Cmd.still s.core.pins.cmd

/-- After PRECHARGE ALL: at most AUTO REFRESH is on the pins, so that a suspended edge is no
    loss. -/
structure Pausing (s : System) : Prop where
  synced : Synced s
  cke : s.core.pins.cke = true
  cmd : s.core.pins.cmd = .nop ∨ s.core.pins.cmd = .autoRefresh
  burst : s.chip.burst = none
  pipe : s.chip.pipe = none

/-- Beat `k - 1` of the write burst of line `e` is on the pins. -/
structure Writing (s : System) (e : LineAdr) (k : ℕ) : Prop extends Clocked s where
  counter : s.core.burstCounter = BitVec.ofNat 4 k
  pos : 0 < k
  le : k ≤ 8
  burst : burstAt s.chip.rows s.chip.burst s.core.pins.cmd =
    some ⟨true, bankOf e, rowOf e, columnOf e, k - 1⟩
  pipe : s.chip.pipe = none
  dq : s.chip.dq = none
  dqm : s.core.pins.dqm = false
  drive : s.core.pins.dqDriveN = false

/-- Half-word `j` of line `a` in the chip. -/
def Chip.half (c : Chip) (a : LineAdr) (j : ℕ) : BitVec 16 :=
  c.mem (bankOf a) (rowOf a) (a.extractLsb' 2 6 ++ BitVec.ofNat 3 j)

/-- The chip is `m` edges into the read burst of line `r`. -/
structure Reading (s : System) (r : LineAdr) (m : ℕ) : Prop extends Clocked s where
  burst : burstAt s.chip.rows s.chip.burst s.core.pins.cmd =
    if m < 8 then some ⟨false, bankOf r, rowOf r, columnOf r, m⟩ else none
  pipe : s.chip.pipe = if 1 ≤ m ∧ m < 9 then some (Chip.half s.chip r (m - 1)) else none
  dq : s.chip.dq = if 2 ≤ m ∧ m < 10 then some (Chip.half s.chip r (m - 2)) else none
  dqIn : 3 ≤ m → m < 11 → s.core.dqIn = Chip.half s.chip r (m - 3)
  dqm : m < 8 → s.core.pins.dqm = false
  drive : s.core.pins.dqDriveN = true

section Step

variable {s : System} {i : ClkIn}

theorem core_clk : (s.clk i).core = s.core.clk (s.sdramIn i) := rfl

theorem chip_clk (h : s.chip.ckeZ = true) : (s.clk i).chip =
    { mem := s.chip.memAfter s.core.pins i.float
        (burstAt s.chip.rows s.chip.burst s.core.pins.cmd)
      rows := rowsAfter s.chip.rows s.core.pins.cmd
      burst := (burstAt s.chip.rows s.chip.burst s.core.pins.cmd).bind Burst.next
      pipe := s.chip.pipeAfter s.core.pins (burstAt s.chip.rows s.chip.burst s.core.pins.cmd)
      dq := s.chip.pipe
      ckeZ := s.core.pins.cke } := by
  simp [System.clk, Chip.clk, h]

/-- The controller never asks for an auto precharge, so the rows follow the history. -/
theorem rowsAfter_issued (c : Sdram16) (x : SdramIn) (h : List Cmd) :
    rowsAfter (openRow h) (c.clk x).pins.cmd = openRow ((c.clk x).pins.cmd :: h) := by
  have hupd : ∀ (b : Bank) (v : Option Row), Function.update (openRow h) b v =
      fun b' => if b' = b then v else openRow h b' := fun b v => by
    funext b'; simp [Function.update_apply]
  rw [cmd_clk]
  split <;> (try split) <;> simp [rowsAfter, openRow, hupd]

theorem Clocked.step (hc : Clocked s) (hcke : (s.clk i).core.pins.cke = true) :
    Clocked (s.clk i) := by
  refine ⟨?_, ?_, hcke⟩
  · have h := rowsAfter_issued s.core (s.sdramIn i) s.ctl.hist
    rw [← hc.synced] at h
    rw [Synced, chip_clk hc.ckeZ]
    exact h
  · rw [chip_clk hc.ckeZ]
    exact hc.cke

theorem burstAt_write {rows : Bank → Option Row} {b : Bank} {r : Row} (h : rows b = some r)
    (old : Option Burst) (c : Column) (a : Bool) :
    burstAt rows old (.write b c a) = some ⟨true, b, r, c, 0⟩ := by
  change (rows b).map _ = _
  rw [h]; rfl

theorem burstAt_read {rows : Bank → Option Row} {b : Bank} {r : Row} (h : rows b = some r)
    (old : Option Burst) (c : Column) (a : Bool) :
    burstAt rows old (.read b c a) = some ⟨false, b, r, c, 0⟩ := by
  change (rows b).map _ = _
  rw [h]; rfl

theorem burstAt_nop (rows : Bank → Option Row) (old : Option Burst) :
    burstAt rows old .nop = old := rfl

/-- A command that starts no burst lets no beat happen while there is no burst. -/
theorem burstAt_none (rows : Bank → Option Row) {c : Cmd} (h : Cmd.still c) :
    burstAt rows none c = none := by
  cases c <;> first | rfl | exact absurd h id

theorem Calm.noBurst (hc : Calm s) :
    burstAt s.chip.rows s.chip.burst s.core.pins.cmd = none := by
  rw [hc.burst]
  exact burstAt_none _ hc.still

/-- A calm chip keeps its memory and its silence. -/
theorem Calm.chip (hc : Calm s) : (s.clk i).chip =
    { s.chip with rows := rowsAfter s.chip.rows s.core.pins.cmd, burst := none, pipe := none,
                  dq := none, ckeZ := true } := by
  rw [chip_clk hc.ckeZ, hc.noBurst, hc.pipe, hc.cke]
  rfl

theorem Calm.step (hc : Calm s) (hcke : (s.clk i).core.pins.cke = true)
    (hst : Cmd.still (s.clk i).core.pins.cmd) : Calm (s.clk i) :=
  { hc.toClocked.step hcke with
    burst := by rw [hc.chip]
    pipe := by rw [hc.chip]
    dq := by rw [hc.chip]
    still := hst }

/-! Bursts -/

/-- The column of beat `j` of a line: the lines start at multiples of eight. -/
theorem column_line (w : Bool) (b : Bank) (r : Row) (a : LineAdr) (j : ℕ) :
    (Burst.mk w b r (columnOf a) j).column = a.extractLsb' 2 6 ++ BitVec.ofNat 3 j := by
  have h1 : (columnOf a).extractLsb' 3 6 = a.extractLsb' 2 6 := BitVec.extractLsb'_append_eq_left
  have h2 : (columnOf a).extractLsb' 0 3 = 0#3 := BitVec.extractLsb'_append_eq_right
  rw [Burst.column, h1, h2, BitVec.zero_add]

theorem Writing.burstFinished {e : LineAdr} {k : ℕ} (hw : Writing s e k) :
    s.core.burstFinished = decide (k = 8) := by
  obtain ⟨h0, h8⟩ := And.intro hw.pos hw.le
  rw [Sdram16.burstFinished, hw.counter]
  interval_cases k <;> decide

/-- One beat of a write burst. -/
theorem Writing.next {e : LineAdr} {k : ℕ} (hw : Writing s e k)
    (hst : s.core.state = .writeburst) (hk : k < 8) : Writing (s.clk i) e (k + 1) := by
  have hf : s.core.burstFinished = false := by rw [hw.burstFinished]; simp; omega
  have hcmd : (s.clk i).core.pins.cmd = .nop := by rw [core_clk, cmd_clk, hst]
  refine { hw.toClocked.step ?_ with
    counter := ?_, pos := by omega, le := by omega, burst := ?_, pipe := ?_, dq := ?_, dqm := ?_,
    drive := ?_ }
  · simp [core_clk, Sdram16.clk, Sdram16.out, hst, hf]
  · have hn : (s.clk i).core.burstCounter = s.core.burstCounter + 1 := by
      change s.core.nextBurstCounter _ = _
      simp [Sdram16.nextBurstCounter, Sdram16.out, hst, hf]
    rw [hn, hw.counter, BitVec.ofNat_add]
    rfl
  · have hp := hw.pos
    have h7 : k - 1 < 7 := by omega
    have hk1 : k - 1 + 1 = k + 1 - 1 := by omega
    rw [hcmd, burstAt_nop, chip_clk hw.ckeZ, hw.burst]
    simp [Burst.next, h7, hk1]
  · rw [chip_clk hw.ckeZ, hw.burst]; rfl
  · rw [chip_clk hw.ckeZ]; exact hw.pipe
  · simp [core_clk, Sdram16.clk, Sdram16.out, hst, hf]
  · simp [core_clk, Sdram16.clk, Sdram16.out, hst, hf]

/-- The last beat of a write burst. -/
theorem Writing.last {e : LineAdr} (hw : Writing s e 8) (hst : s.core.state = .writeburst) :
    Calm (s.clk i) := by
  have hf : s.core.burstFinished = true := by rw [hw.burstFinished]; rfl
  refine { hw.toClocked.step ?_ with burst := ?_, pipe := ?_, dq := ?_, still := ?_ }
  · simp [core_clk, Sdram16.clk, Sdram16.out, hst, hf]
  · rw [chip_clk hw.ckeZ, hw.burst]; rfl
  · rw [chip_clk hw.ckeZ, hw.burst]; rfl
  · rw [chip_clk hw.ckeZ]; exact hw.pipe
  · rw [core_clk, cmd_clk, hst]; exact trivial

/-- A read burst does not write. -/
theorem Reading.mem {r : LineAdr} {m : ℕ} (hr : Reading s r m) :
    (s.clk i).chip.mem = s.chip.mem := by
  rw [chip_clk hr.ckeZ, hr.burst]
  split <;> rfl

/-- One edge of a read burst. -/
theorem Reading.next {r : LineAdr} {m : ℕ} (hr : Reading s r m)
    (hcmd : (s.clk i).core.pins.cmd = .nop) (hcke : (s.clk i).core.pins.cke = true)
    (hdqm : m + 1 < 8 → (s.clk i).core.pins.dqm = false)
    (hdrive : (s.clk i).core.pins.dqDriveN = true) :
    Reading (s.clk i) r (m + 1) := by
  have hhalf : Chip.half (s.clk i).chip r = Chip.half s.chip r := by
    funext j; rw [Chip.half, hr.mem]; rfl
  refine { hr.toClocked.step hcke with
    burst := ?_, pipe := ?_, dq := ?_, dqIn := ?_, dqm := hdqm, drive := hdrive }
  · rw [hcmd, burstAt_nop, chip_clk hr.ckeZ, hr.burst]
    by_cases h8 : m < 8
    · by_cases h7 : m < 7
      · simp [Burst.next, h8, h7]
      · simp [Burst.next, h8, h7, show ¬ m + 1 < 8 by omega]
    · simp [h8, show ¬ m + 1 < 8 by omega]
  · rw [hhalf, chip_clk hr.ckeZ, hr.burst]
    by_cases h8 : m < 8
    · simp [Chip.pipeAfter, h8, hr.dqm h8, column_line, Chip.half]
    · simp [Chip.pipeAfter, h8, show ¬ m + 1 < 9 by omega]
  · rw [hhalf, chip_clk hr.ckeZ]
    simp only [hr.pipe]
    congr 1
    simp; omega
  · intro h3 h11
    have hd := hr.dq
    rw [if_pos (by omega)] at hd
    rw [hhalf, core_clk]
    simp only [Sdram16.clk, System.sdramIn, Chip.busOut, hr.drive, hd, if_true, Option.getD_some]
    congr 1

/-! Precharge and pause -/

/-- PRECHARGE ALL closes the rows and cuts every burst short, whatever the chip was doing. -/
theorem precharging_step (hcmd : s.core.pins.cmd = .prechargeAll) (hz : s.chip.ckeZ = true)
    (hcl : Closed s.ctl) (hcke : (s.clk i).core.pins.cke = true)
    (hcmd' : (s.clk i).core.pins.cmd = .nop ∨ (s.clk i).core.pins.cmd = .autoRefresh) :
    Pausing (s.clk i) := by
  refine ⟨?_, hcke, hcmd', ?_, ?_⟩
  · have h := rowsAfter_issued s.core (s.sdramIn i) s.ctl.hist
    rw [show openRow s.ctl.hist = fun _ => none from funext hcl] at h
    rw [Synced, chip_clk hz, hcmd]
    exact h
  · rw [chip_clk hz, hcmd]; rfl
  · rw [chip_clk hz, hcmd]; rfl

theorem Pausing.rows (hp : Pausing s) : s.chip.rows = openRow s.ctl.hist := by
  have h := hp.synced
  rw [Synced] at h
  rcases hp.cmd with hc | hc <;> rw [hc] at h <;> exact h

/-- A pausing chip waits, at a suspended edge as well as at any other. -/
theorem Pausing.chip (hp : Pausing s) : (s.clk i).chip =
    { s.chip with dq := if s.chip.ckeZ then none else s.chip.dq, ckeZ := true } := by
  cases hz : s.chip.ckeZ with
  | false => simp [System.clk, Chip.clk, hz, hp.cke]
  | true =>
    have hb : burstAt s.chip.rows s.chip.burst s.core.pins.cmd = none := by
      rw [hp.burst]
      rcases hp.cmd with hc | hc <;> rw [hc] <;> rfl
    have hr : rowsAfter s.chip.rows s.core.pins.cmd = s.chip.rows := hp.synced.trans hp.rows.symm
    rw [chip_clk hz, hb, hr, hp.cke, hp.pipe, if_pos rfl]
    simp [Chip.memAfter, Chip.pipeAfter, hp.burst, hp.pipe]

theorem Pausing.synced' (hp : Pausing s) : Synced (s.clk i) := by
  have h := rowsAfter_issued s.core (s.sdramIn i) s.ctl.hist
  rw [← hp.rows] at h
  rw [Synced, hp.chip]
  exact h

theorem Pausing.step (hp : Pausing s) (hcke : (s.clk i).core.pins.cke = true)
    (hcmd : (s.clk i).core.pins.cmd = .nop ∨ (s.clk i).core.pins.cmd = .autoRefresh) :
    Pausing (s.clk i) :=
  ⟨hp.synced', hcke, hcmd, by rw [hp.chip]; exact hp.burst, by rw [hp.chip]; exact hp.pipe⟩

theorem Pausing.calm (hp : Pausing s) (hcke : (s.clk i).core.pins.cke = true)
    (hst : Cmd.still (s.clk i).core.pins.cmd) (hdq : s.chip.ckeZ = true ∨ s.chip.dq = none) :
    Calm (s.clk i) where
  synced := hp.synced'
  ckeZ := by rw [hp.chip]
  cke := hcke
  burst := by rw [hp.chip]; exact hp.burst
  pipe := by rw [hp.chip]; exact hp.pipe
  dq := by
    rw [hp.chip]
    rcases hdq with h | h <;> simp [h]
  still := hst

/-! Pins -/

/-- CKE goes low only with PRECHARGE ALL. -/
theorem cke_clk (h1 : s.core.state ≠ .prechargeBeforeRefresh)
    (h2 : s.core.state = .initPrechargeall → s.core.initDone = false) :
    (s.clk i).core.pins.cke = true := by
  rw [core_clk]
  fun_cases Sdram16.out s.core (s.sdramIn i) <;> simp_all [Sdram16.clk, Sdram16.out]

/-- READ and WRITE are issued in the states of their names. -/
theorem still_clk (h1 : s.core.state ≠ .write) (h2 : s.core.state ≠ .read) :
    Cmd.still (s.clk i).core.pins.cmd := by
  rw [core_clk, cmd_clk]
  split <;> (try split) <;> first | exact trivial | contradiction

/-! ### What the chip does in each state -/

def ChipPhase (s : System) : Prop :=
  match s.core.state with
  | .reset => True
  | .initPrechargeall => s.core.pins.cke = true
  | .initAutorefresh1 => (s.core.pins.cmd = .prechargeAll ∧ s.chip.ckeZ = true) ∨ Pausing s
  | .initAutorefresh2 => Pausing s
  | .initLoadmode => Pausing s ∧ s.chip.ckeZ = true
  | .autorefresh => (s.core.pins.cmd = .prechargeAll ∧ s.chip.ckeZ = true ∧ s.chip.pipe = none) ∨
      (Pausing s ∧ s.chip.dq = none)
  | .waitRefresh => Pausing s ∧ s.chip.dq = none
  | .idle | .prechargeBeforeRefresh | .prechargeBeforeWrite | .activateBeforeWrite | .write
  | .prechargeBeforeRead | .activateBeforeRead | .read => Calm s
  | .writeburst => ∃ e r k, s.ctl.busy = some (e, r) ∧ Writing s e k
  | .readreg1 => ∃ e r, s.ctl.busy = some (e, r) ∧ Reading s r 0
  | .readreg2 => ∃ e r, s.ctl.busy = some (e, r) ∧ Reading s r 1
  | .readreg3 => ∃ e r, s.ctl.busy = some (e, r) ∧ Reading s r 2
  | .readfirst => ∃ e r, s.ctl.busy = some (e, r) ∧ Reading s r 3
  | .readburst => ∃ e r k, s.ctl.busy = some (e, r) ∧ k < 8 ∧
      s.core.burstCounter = BitVec.ofNat 4 k ∧ Reading s r (k + 4)

theorem chip_reset (h : s.core.state = .reset) : ChipPhase (s.clk i) := by
  have h' : (s.clk i).core.state = .initPrechargeall := by simp [core_clk, Sdram16.state_clk, h]
  rw [ChipPhase, h']
  exact cke_clk (by simp [h]) (by simp [h])

theorem chip_initPrechargeall (hp : ChipPhase s) (h : s.core.state = .initPrechargeall) :
    ChipPhase (s.clk i) := by
  rw [ChipPhase, h] at hp
  cases hd : s.core.initDone with
  | false =>
    have h' : (s.clk i).core.state = .initPrechargeall := by
      simp [core_clk, Sdram16.state_clk, h, hd]
    rw [ChipPhase, h']
    exact cke_clk (by simp [h]) (by simp [hd])
  | true =>
    have h' : (s.clk i).core.state = .initAutorefresh1 := by
      simp [core_clk, Sdram16.state_clk, h, hd]
    rw [ChipPhase, h']
    left
    refine ⟨by simp [core_clk, cmd_clk, h, hd], ?_⟩
    simp only [System.clk, Chip.clk]
    split <;> exact hp

/-- PRECHARGE ALL has been issued: the banks are closed. -/
theorem closed_of_inv (hi : Legality.Inv s.ctl)
    (h : s.core.state = .initAutorefresh1 ∨ s.core.state = .autorefresh) : Closed s.ctl := by
  have hq := hi.phase
  rw [Legality.Phase] at hq
  rcases h with h | h <;> rw [show s.ctl.core.state = _ from h] at hq <;> exact hq.1

/-- While the banks are closed, only AUTO REFRESH is issued. -/
theorem cmd_closed (h : s.core.state = .initAutorefresh1 ∨ s.core.state = .initAutorefresh2 ∨
    s.core.state = .autorefresh) :
    (s.clk i).core.pins.cmd = .nop ∨ (s.clk i).core.pins.cmd = .autoRefresh := by
  rw [core_clk, cmd_clk]
  rcases h with h | h | h <;> rw [h]
  · cases s.core.prechargeallDone <;> simp
  · cases s.core.autorefreshDone <;> simp
  · cases s.core.prechargeallDone <;> simp

theorem chip_initAutorefresh1 (hi : Legality.Inv s.ctl) (hp : ChipPhase s)
    (h : s.core.state = .initAutorefresh1) : ChipPhase (s.clk i) := by
  rw [ChipPhase, h] at hp
  have hcke : (s.clk i).core.pins.cke = true := cke_clk (by simp [h]) (by simp [h])
  have hpa : Pausing (s.clk i) := by
    rcases hp with ⟨h1, h2⟩ | hp
    · exact precharging_step h1 h2 (closed_of_inv hi (.inl h)) hcke (cmd_closed (.inl h))
    · exact hp.step hcke (cmd_closed (.inl h))
  have h' : (s.clk i).core.state = .initAutorefresh1 ∨
      (s.clk i).core.state = .initAutorefresh2 := by
    cases hd : s.core.prechargeallDone <;> simp [core_clk, Sdram16.state_clk, h, hd]
  rw [ChipPhase]
  rcases h' with h' | h' <;> rw [h']
  exacts [.inr hpa, hpa]

theorem chip_initAutorefresh2 (hp : ChipPhase s) (h : s.core.state = .initAutorefresh2) :
    ChipPhase (s.clk i) := by
  rw [ChipPhase, h] at hp
  have hcke : (s.clk i).core.pins.cke = true := cke_clk (by simp [h]) (by simp [h])
  have hpa : Pausing (s.clk i) := hp.step hcke (cmd_closed (.inr (.inl h)))
  have h' : (s.clk i).core.state = .initAutorefresh2 ∨ (s.clk i).core.state = .initLoadmode := by
    cases hd : s.core.autorefreshDone <;> simp [core_clk, Sdram16.state_clk, h, hd]
  rw [ChipPhase]
  rcases h' with h' | h' <;> rw [h']
  exacts [hpa, ⟨hpa, by rw [hp.chip]⟩]

theorem chip_initLoadmode (hp : ChipPhase s) (h : s.core.state = .initLoadmode) :
    ChipPhase (s.clk i) := by
  rw [ChipPhase, h] at hp
  obtain ⟨hp, hz⟩ := hp
  have hcke : (s.clk i).core.pins.cke = true := cke_clk (by simp [h]) (by simp [h])
  cases hd : s.core.autorefreshDone with
  | false =>
    have h' : (s.clk i).core.state = .initLoadmode := by
      simp [core_clk, Sdram16.state_clk, h, hd]
    rw [ChipPhase, h']
    exact ⟨hp.step hcke (.inl (by simp [core_clk, cmd_clk, h, hd])), by rw [hp.chip]⟩
  | true =>
    have h' : (s.clk i).core.state = .idle := by simp [core_clk, Sdram16.state_clk, h, hd]
    rw [ChipPhase, h']
    exact hp.calm hcke (still_clk (by simp [h]) (by simp [h])) (.inl hz)

theorem chip_prechargeBeforeRefresh (hp : ChipPhase s)
    (h : s.core.state = .prechargeBeforeRefresh) : ChipPhase (s.clk i) := by
  rw [ChipPhase, h] at hp
  have h' : (s.clk i).core.state = .autorefresh := by simp [core_clk, Sdram16.state_clk, h]
  have hc := hp.chip (i := i)
  rw [ChipPhase, h']
  left
  exact ⟨by simp [core_clk, cmd_clk, h], by rw [hc], by rw [hc]⟩

theorem chip_autorefresh (hi : Legality.Inv s.ctl) (hp : ChipPhase s)
    (h : s.core.state = .autorefresh) : ChipPhase (s.clk i) := by
  rw [ChipPhase, h] at hp
  have hcke : (s.clk i).core.pins.cke = true := cke_clk (by simp [h]) (by simp [h])
  have hcmd := cmd_closed (i := i) (.inr (.inr h))
  have hpa : Pausing (s.clk i) ∧ (s.clk i).chip.dq = none := by
    rcases hp with ⟨h1, h2, h3⟩ | ⟨hp, hdq⟩
    · exact ⟨precharging_step h1 h2 (closed_of_inv hi (.inr h)) hcke hcmd, by
        rw [chip_clk h2]; exact h3⟩
    · exact ⟨hp.step hcke hcmd, by rw [hp.chip, hdq]; simp⟩
  have h' : (s.clk i).core.state = .autorefresh ∨ (s.clk i).core.state = .waitRefresh := by
    cases hd : s.core.prechargeallDone <;> simp [core_clk, Sdram16.state_clk, h, hd]
  rw [ChipPhase]
  rcases h' with h' | h' <;> rw [h']
  exacts [.inr hpa, hpa]

theorem chip_waitRefresh (hp : ChipPhase s) (h : s.core.state = .waitRefresh) :
    ChipPhase (s.clk i) := by
  rw [ChipPhase, h] at hp
  obtain ⟨hp, hdq⟩ := hp
  have hcke : (s.clk i).core.pins.cke = true := cke_clk (by simp [h]) (by simp [h])
  have hcmd : (s.clk i).core.pins.cmd = .nop := by simp [core_clk, cmd_clk, h]
  have h' : (s.clk i).core.state = .waitRefresh ∨ (s.clk i).core.state = .idle := by
    cases hd : s.core.autorefreshDone <;> simp [core_clk, Sdram16.state_clk, h, hd]
  rw [ChipPhase]
  rcases h' with h' | h' <;> rw [h']
  · exact ⟨hp.step hcke (.inl hcmd), by rw [hp.chip, hdq]; simp⟩
  · exact hp.calm hcke (by rw [hcmd]; exact trivial) (.inr hdq)

/-- IDLE and the preparation of a burst. -/
theorem chip_calm (hp : ChipPhase s)
    (hst : s.core.state = .idle ∨ s.core.state = .prechargeBeforeWrite ∨
      s.core.state = .activateBeforeWrite ∨ s.core.state = .prechargeBeforeRead ∨
      s.core.state = .activateBeforeRead) : ChipPhase (s.clk i) := by
  have hc : Calm s := by
    rw [ChipPhase] at hp
    rcases hst with h | h | h | h | h <;> rw [h] at hp <;> exact hp
  have hc' : Calm (s.clk i) := by
    refine hc.step (cke_clk ?_ ?_) (still_clk ?_ ?_) <;>
      rcases hst with h | h | h | h | h <;> simp [h]
  have h' : (s.clk i).core.state = .idle ∨ (s.clk i).core.state = .prechargeBeforeRefresh ∨
      (s.clk i).core.state = .prechargeBeforeWrite ∨ (s.clk i).core.state = .activateBeforeWrite ∨
      (s.clk i).core.state = .write ∨ (s.clk i).core.state = .prechargeBeforeRead ∨
      (s.clk i).core.state = .activateBeforeRead ∨ (s.clk i).core.state = .read := by
    rw [core_clk, Sdram16.clk]
    fun_cases Sdram16.out s.core (s.sdramIn i) <;> simp_all
  rw [ChipPhase]
  rcases h' with h' | h' | h' | h' | h' | h' | h' | h' <;> rw [h'] <;> exact hc'

theorem Calm.rows (hc : Calm s) : (s.clk i).chip.rows = openRow s.ctl.hist := by
  rw [hc.chip]
  exact hc.synced

/-- WRITE: the addressed row is open, so the chip takes up the burst. -/
theorem chip_write (hi : Legality.Inv s.ctl) (hl : s.ctl.legal (s.sdramIn i)) (hp : ChipPhase s)
    (hst : s.core.state = .write) (hz : s.core.burstCounter = 0) : ChipPhase (s.clk i) := by
  have hc : Calm s := by simpa [ChipPhase, hst] using hp
  obtain ⟨-, -, e, r, hb, hr⟩ := (Half.phase_transferring_iff (h := .evict) hst).1 hi.phase
  have hb' := busy_keep hb hl (commandAck_false (show s.ctl.core.state ≠ _ by
    rw [show s.ctl.core.state = _ from hst]; simp))
  obtain ⟨-, -, he, -⟩ := hl.2 (e, r) hb
  have hcke : (s.clk i).core.pins.cke = true := cke_clk (by simp [hst]) (by simp [hst])
  cases hd : s.core.activateDone with
  | false =>
    have h' : (s.clk i).core.state = .write := by
      simp [core_clk, Sdram16.state_clk, hst, hd]
    rw [ChipPhase, h']
    refine hc.step hcke ?_
    rw [show (s.clk i).core.pins.cmd = .nop by simp [core_clk, cmd_clk, hst, hd]]
    exact trivial
  | true =>
    have h' : (s.clk i).core.state = .writeburst := by
      simp [core_clk, Sdram16.state_clk, hst, hd]
    have hcmd : (s.clk i).core.pins.cmd = .write (bankOf e) (columnOf e) false := by
      rw [← show (s.sdramIn i).evictAdr = e from he]
      simp [core_clk, cmd_clk, hst, hd]
    rw [ChipPhase, h']
    refine ⟨e, r, 1, hb', { hc.toClocked.step hcke with
      counter := ?_, pos := by omega, le := by omega, burst := ?_, pipe := by rw [hc.chip],
      dq := by rw [hc.chip], dqm := ?_, drive := ?_ }⟩
    · change s.core.nextBurstCounter _ = _
      simp [Sdram16.nextBurstCounter, Sdram16.burstFinished, Sdram16.out, hst, hd, hz]
    · rw [hcmd, hc.rows]
      exact burstAt_write hr _ _ _
    · simp [core_clk, Sdram16.clk, Sdram16.out, hst, hd]
    · simp [core_clk, Sdram16.clk, Sdram16.out, hst, hd]

/-- READ: the addressed row is open, so the chip takes up the burst. -/
theorem chip_read (hi : Legality.Inv s.ctl) (hl : s.ctl.legal (s.sdramIn i)) (hp : ChipPhase s)
    (hst : s.core.state = .read) : ChipPhase (s.clk i) := by
  have hc : Calm s := by simpa [ChipPhase, hst] using hp
  obtain ⟨-, -, e, r, hb, hr⟩ := (Half.phase_transferring_iff (h := .refill) hst).1 hi.phase
  have hb' := busy_keep hb hl (commandAck_false (show s.ctl.core.state ≠ _ by
    rw [show s.ctl.core.state = _ from hst]; simp))
  obtain ⟨-, -, -, he⟩ := hl.2 (e, r) hb
  have hcke : (s.clk i).core.pins.cke = true := cke_clk (by simp [hst]) (by simp [hst])
  cases hd : s.core.activateDone with
  | false =>
    have h' : (s.clk i).core.state = .read := by
      simp [core_clk, Sdram16.state_clk, hst, hd]
    rw [ChipPhase, h']
    refine hc.step hcke ?_
    rw [show (s.clk i).core.pins.cmd = .nop by simp [core_clk, cmd_clk, hst, hd]]
    exact trivial
  | true =>
    have h' : (s.clk i).core.state = .readreg1 := by
      simp [core_clk, Sdram16.state_clk, hst, hd]
    have hcmd : (s.clk i).core.pins.cmd = .read (bankOf r) (columnOf r) false := by
      rw [← show (s.sdramIn i).refillAdr = r from he]
      simp [core_clk, cmd_clk, hst, hd]
    rw [ChipPhase, h']
    refine ⟨e, r, hb', { hc.toClocked.step hcke with
      burst := ?_, pipe := by rw [hc.chip]; simp, dq := by rw [hc.chip]; simp,
      dqIn := fun h => by omega, dqm := fun _ => ?_, drive := ?_ }⟩
    · rw [hcmd, hc.rows]
      exact burstAt_read hr _ _ _
    · simp [core_clk, Sdram16.clk, Sdram16.out, hst, hd]
    · simp [core_clk, Sdram16.clk, Sdram16.out, hst, hd]

/-- The write burst. -/
theorem chip_writeburst (hl : s.ctl.legal (s.sdramIn i)) (hp : ChipPhase s)
    (hst : s.core.state = .writeburst) : ChipPhase (s.clk i) := by
  obtain ⟨e, r, k, hb, hw⟩ : ∃ e r k, s.ctl.busy = some (e, r) ∧ Writing s e k := by
    simpa [ChipPhase, hst] using hp
  have hb' := busy_keep hb hl (commandAck_false (show s.ctl.core.state ≠ _ by
    rw [show s.ctl.core.state = _ from hst]; simp))
  rcases Nat.lt_or_ge k 8 with hk | hk
  · have hf : s.core.burstFinished = false := by rw [hw.burstFinished]; simp; omega
    have h' : (s.clk i).core.state = .writeburst := by
      simp [core_clk, Sdram16.state_clk, hst, hf]
    rw [ChipPhase, h']
    exact ⟨e, r, k + 1, hb', hw.next hst hk⟩
  · obtain rfl : k = 8 := le_antisymm hw.le hk
    have hf : s.core.burstFinished = true := by rw [hw.burstFinished]; rfl
    have h' : (s.clk i).core.state = .prechargeBeforeRead := by
      simp [core_clk, Sdram16.state_clk, hst, hf]
    rw [ChipPhase, h']
    exact hw.last hst

/-- The edges of a read burst up to its acknowledge. -/
theorem Reading.clk {r : LineAdr} {m : ℕ} (hr : Reading s r m)
    (hst : s.core.state = .readreg1 ∨ s.core.state = .readreg2 ∨ s.core.state = .readreg3 ∨
      s.core.state = .readfirst ∨ s.core.state = .readburst)
    (hlast : s.core.state = .readburst → s.core.burstLast = true → 8 ≤ m + 1) :
    Reading (s.clk i) r (m + 1) := by
  refine hr.next ?_ (cke_clk ?_ ?_) (fun hm => ?_) ?_
  · rw [core_clk, cmd_clk]
    rcases hst with h | h | h | h | h <;> rw [h]
  · rcases hst with h | h | h | h | h <;> simp [h]
  · rcases hst with h | h | h | h | h <;> simp [h]
  · have hl : s.core.state = .readburst → s.core.burstLast = false := fun h => by
      by_contra hb
      have := hlast h (by simpa using hb)
      omega
    rcases hst with h | h | h | h | h <;> simp [core_clk, Sdram16.clk, Sdram16.out, h]
    simp [hl h]
  · rcases hst with h | h | h | h | h <;>
      cases hb : s.core.burstLast <;> simp [core_clk, Sdram16.clk, Sdram16.out, h, hb]

theorem burstLast_eq {c : Sdram16} {k : ℕ} (hc : c.burstCounter = BitVec.ofNat 4 k) (hk : k < 8) :
    c.burstLast = decide (k = 7) := by
  rw [Sdram16.burstLast, hc]
  interval_cases k <;> decide

/-- The registers before the burst. -/
theorem chip_readreg (hl : s.ctl.legal (s.sdramIn i)) (hp : ChipPhase s)
    (hst : s.core.state = .readreg1 ∨ s.core.state = .readreg2 ∨ s.core.state = .readreg3 ∨
      s.core.state = .readfirst) : ChipPhase (s.clk i) := by
  have ha : s.ctl.core.commandAck (s.sdramIn i) = false :=
    commandAck_false (show s.core.state ≠ _ by rcases hst with h | h | h | h <;> simp [h])
  rw [ChipPhase] at hp
  rcases hst with h | h | h | h <;> rw [h] at hp <;> obtain ⟨e, r, hb, hr⟩ := hp <;>
    have hr' := hr.clk (i := i) (by simp [h]) (by simp [h]) <;>
    have hb' := busy_keep hb hl ha <;> rw [ChipPhase]
  · rw [show (s.clk i).core.state = .readreg2 by simp [core_clk, Sdram16.state_clk, h]]
    exact ⟨e, r, hb', hr'⟩
  · rw [show (s.clk i).core.state = .readreg3 by simp [core_clk, Sdram16.state_clk, h]]
    exact ⟨e, r, hb', hr'⟩
  · rw [show (s.clk i).core.state = .readfirst by simp [core_clk, Sdram16.state_clk, h]]
    exact ⟨e, r, hb', hr'⟩
  · rw [show (s.clk i).core.state = .readburst by simp [core_clk, Sdram16.state_clk, h]]
    refine ⟨e, r, 0, hb', by omega, ?_, hr'⟩
    change s.core.nextBurstCounter _ = _
    simp [Sdram16.nextBurstCounter, Sdram16.out, h]

/-- The read burst. -/
theorem chip_readburst (hl : s.ctl.legal (s.sdramIn i)) (hp : ChipPhase s)
    (hst : s.core.state = .readburst) : ChipPhase (s.clk i) := by
  obtain ⟨e, r, k, hb, hk, hcnt, hr⟩ : ∃ e r k, s.ctl.busy = some (e, r) ∧ k < 8 ∧
      s.core.burstCounter = BitVec.ofNat 4 k ∧ Reading s r (k + 4) := by
    simpa [ChipPhase, hst] using hp
  have hlast := burstLast_eq hcnt hk
  have hr' := hr.clk (i := i) (by simp [hst]) (fun _ h => by
    rw [hlast] at h; have := of_decide_eq_true h; omega)
  rw [ChipPhase]
  by_cases h7 : k = 7
  · subst h7
    have h' : (s.clk i).core.state = .idle := by
      simp [core_clk, Sdram16.state_clk, hst, hlast]
    have hcmd : (s.clk i).core.pins.cmd = .nop := by rw [core_clk, cmd_clk, hst]
    have hbu := hr'.burst
    rw [hcmd, burstAt_nop] at hbu
    rw [h']
    exact { hr'.toClocked with
      burst := hbu, pipe := hr'.pipe, dq := hr'.dq, still := by rw [hcmd]; exact trivial }
  · have hf : s.core.burstLast = false := by rw [hlast]; simpa using h7
    have hack : s.ctl.core.commandAck (s.sdramIn i) = false := by
      rw [Bool.eq_false_iff]
      intro ha
      have := ((commandAck_iff _ _).1 ha).2
      rw [show s.ctl.core.burstLast = _ from hf] at this
      cases this
    have hfin : s.core.burstFinished = false := by
      rw [Sdram16.burstFinished, hcnt]
      interval_cases k <;> decide
    rw [show (s.clk i).core.state = .readburst by
      simp [core_clk, Sdram16.state_clk, hst, hf]]
    refine ⟨e, r, k + 1, busy_keep hb hl hack, by omega, ?_, by
      rw [show k + 1 + 4 = k + 4 + 1 by omega]; exact hr'⟩
    have hn : (s.clk i).core.burstCounter = s.core.burstCounter + 1 := by
      change s.core.nextBurstCounter _ = _
      simp [Sdram16.nextBurstCounter, Sdram16.out, hst, hf, hfin]
    rw [hn, hcnt, BitVec.ofNat_add]
    rfl

/-- The burst counter is rewound before a WRITE. -/
theorem rewound_clk (h : (s.clk i).core.state = .prechargeBeforeWrite ∨
    (s.clk i).core.state = .activateBeforeWrite ∨ (s.clk i).core.state = .write) :
    (s.clk i).core.burstCounter = 0 := by
  have hre : (s.core.out (s.sdramIn i)).reloadBurstCounter = true := by
    rw [core_clk, Sdram16.clk] at h
    revert h
    fun_cases Sdram16.out s.core (s.sdramIn i) <;> simp
  change s.core.nextBurstCounter _ = _
  rw [Sdram16.nextBurstCounter, if_pos hre]

end Step

/-- An eviction starts with its index in the address of port 1. -/
theorem start_evict {s : System} {i : ClkIn} (hi : Legality.Inv s.ctl)
    (hl : s.ctl.legal (s.sdramIn i)) (h : (s.clk i).core.state = .prechargeBeforeWrite) :
    (s.clk i).ctl.busy = some (i.evictAdr, i.refillAdr) ∧
      (s.clk i).core.cacheAdrMsb = lineIndex i.evictAdr := by
  obtain ⟨hst, hc, hm⟩ : s.core.state = .idle ∧
      (i.commandEvict || s.core.commandEvictPending) = true ∧
      (s.clk i).core.cacheAdrMsb = lineIndex i.evictAdr := by
    rw [core_clk, Sdram16.clk] at h ⊢
    revert h
    fun_cases Sdram16.out s.core (s.sdramIn i) <;> simp_all [System.sdramIn]
  refine ⟨busy_accept hi hl (commandAck_false (show s.core.state ≠ _ by simp [hst])) (.inl hc), hm⟩

/-- A refill starts with its index in the address of port 1. -/
theorem start_refill {s : System} {i : ClkIn} (hi : Legality.Inv s.ctl)
    (hl : s.ctl.legal (s.sdramIn i)) (h : (s.clk i).core.state = .prechargeBeforeRead) :
    (s.clk i).ctl.busy = some (i.evictAdr, i.refillAdr) ∧
      (s.clk i).core.cacheAdrMsb = lineIndex i.refillAdr := by
  obtain ⟨hst, hm⟩ : ((s.core.state = .idle ∧
      (i.commandRefill || s.core.commandRefillPending) = true) ∨ s.core.state = .writeburst) ∧
      (s.clk i).core.cacheAdrMsb = lineIndex i.refillAdr := by
    rw [core_clk, Sdram16.clk] at h ⊢
    revert h
    fun_cases Sdram16.out s.core (s.sdramIn i) <;> simp_all [System.sdramIn]
  refine ⟨?_, hm⟩
  rcases hst with ⟨hst, hc⟩ | hst
  · exact busy_accept hi hl (commandAck_false (show s.core.state ≠ _ by simp [hst])) (.inr hc)
  · obtain ⟨-, -, e, r, hb⟩ : Tracks s.ctl ∧ Initialized s.ctl.hist ∧
        ∃ e r, s.ctl.busy = some (e, r) := by
      have hq := hi.phase
      rwa [Legality.Phase, show s.ctl.core.state = _ from hst] at hq
    obtain ⟨-, -, he, hr⟩ := hl.2 (e, r) hb
    have hb' := busy_keep hb hl (commandAck_false (show s.core.state ≠ _ by simp [hst]))
    rw [show i.evictAdr = e from he, show i.refillAdr = r from hr]
    exact hb'

/-- The chip does not see the cache RAMs. -/
theorem chip_host {s : System} {f : Content} (hp : ChipPhase s) : ChipPhase (s.step (.host f)) := by
  have hk : Clocked s → Clocked (s.step (.host f)) := fun h => ⟨h.synced, h.ckeZ, h.cke⟩
  have hc : Calm s → Calm (s.step (.host f)) := fun h =>
    { hk h.toClocked with burst := h.burst, pipe := h.pipe, dq := h.dq, still := h.still }
  have ha : Pausing s → Pausing (s.step (.host f)) := fun h =>
    ⟨h.synced, h.cke, h.cmd, h.burst, h.pipe⟩
  have hw : ∀ e k, Writing s e k → Writing (s.step (.host f)) e k := fun e k h =>
    { hk h.toClocked with
      counter := h.counter, pos := h.pos, le := h.le, burst := h.burst, pipe := h.pipe, dq := h.dq
      dqm := h.dqm, drive := h.drive }
  have hr : ∀ r m, Reading s r m → Reading (s.step (.host f)) r m := fun r m h =>
    { hk h.toClocked with
      burst := h.burst, pipe := h.pipe, dq := h.dq, dqIn := h.dqIn, dqm := h.dqm, drive := h.drive }
  rw [ChipPhase] at hp ⊢
  rw [show (s.step (.host f)).core.state = s.core.state from rfl]
  cases h : s.core.state <;> rw [h] at hp <;> simp only at hp ⊢
  case initPrechargeall => exact hp
  case initAutorefresh1 => exact hp.imp id ha
  case initAutorefresh2 => exact ha hp
  case initLoadmode => exact ⟨ha hp.1, hp.2⟩
  case autorefresh => exact hp.imp id fun h => ⟨ha h.1, h.2⟩
  case waitRefresh => exact ⟨ha hp.1, hp.2⟩
  case writeburst =>
    obtain ⟨e, r, k, hb, h⟩ := hp
    exact ⟨e, r, k, hb, hw e k h⟩
  case readreg1 | readreg2 | readreg3 | readfirst =>
    obtain ⟨e, r, hb, h⟩ := hp
    exact ⟨e, r, hb, hr r _ h⟩
  case readburst =>
    obtain ⟨e, r, k, hb, h1, h2, h⟩ := hp
    exact ⟨e, r, k, hb, h1, h2, hr r _ h⟩
  all_goals exact hc hp

/-- The invariant of every run. -/
structure Inv (s : System) : Prop where
  ctl : Legality.Inv s.ctl
  chip : ChipPhase s
  rewound : s.core.state = .prechargeBeforeWrite ∨ s.core.state = .activateBeforeWrite ∨
    s.core.state = .write → s.core.burstCounter = 0
  evict : s.core.state = .prechargeBeforeWrite →
    ∃ e r, s.ctl.busy = some (e, r) ∧ s.core.cacheAdrMsb = lineIndex e
  refill : s.core.state = .prechargeBeforeRead →
    ∃ e r, s.ctl.busy = some (e, r) ∧ s.core.cacheAdrMsb = lineIndex r

/-- STEP: every sdram_clk edge keeps the invariant. -/
theorem inv_clk {s : System} {i : ClkIn} (hi : Inv s) (hl : s.ctl.legal (s.sdramIn i)) :
    Inv (s.clk i) := by
  refine ⟨Legality.inv_step hi.ctl hl, ?_, rewound_clk, fun h => ⟨_, _, start_evict hi.ctl hl h⟩,
    fun h => ⟨_, _, start_refill hi.ctl hl h⟩⟩
  cases hst : s.core.state with
  | reset => exact chip_reset hst
  | initPrechargeall => exact chip_initPrechargeall hi.chip hst
  | initAutorefresh1 => exact chip_initAutorefresh1 hi.ctl hi.chip hst
  | initAutorefresh2 => exact chip_initAutorefresh2 hi.chip hst
  | initLoadmode => exact chip_initLoadmode hi.chip hst
  | prechargeBeforeRefresh => exact chip_prechargeBeforeRefresh hi.chip hst
  | autorefresh => exact chip_autorefresh hi.ctl hi.chip hst
  | waitRefresh => exact chip_waitRefresh hi.chip hst
  | idle | prechargeBeforeWrite | activateBeforeWrite | prechargeBeforeRead | activateBeforeRead =>
    exact chip_calm hi.chip (by simp [hst])
  | write => exact chip_write hi.ctl hl hi.chip hst (hi.rewound (by simp [hst]))
  | read => exact chip_read hi.ctl hl hi.chip hst
  | writeburst => exact chip_writeburst hl hi.chip hst
  | readreg1 | readreg2 | readreg3 | readfirst => exact chip_readreg hl hi.chip (by simp [hst])
  | readburst => exact chip_readburst hl hi.chip hst

/-- RUN: the invariant holds in every reachable state. -/
theorem inv_reachable {s : System} (hs : machine.Reachable s) : Inv s := by
  refine hs.invariant (fun s h => ?_) (fun s e hi hl => ?_)
  · have hst : s.core.state = .reset := h.1
    refine ⟨Legality.inv_start h, ?_, fun h' => by simp [hst] at h', fun h' => by simp [hst] at h',
      fun h' => by simp [hst] at h'⟩
    rw [ChipPhase, hst]
    exact trivial
  · cases e with
    | clk i => exact inv_clk hi hl
    | host f => exact ⟨hi.ctl, chip_host hi.chip, hi.rewound, hi.evict, hi.refill⟩

end DsdOrsoc.Yadmc.Transfer
