import DsdOrsoc.Yadmc.Cache

/-! The low-level controller `yadmc_sdram16` for one 16-bit SDRAM chip: timing counters, row
    tracker, burst counter, pending flags, the state machine and the registered pins, at the
    instantiated parameters (sdram_depth 25, columndepth 9, hence 13 row bits). A line address is
    split as

        adr[20:0] = RRRRRRRRRRRRR CCCCCC BB     (row, column without its three zero LSBs, bank)

    A step is one rising edge of sdram_clk out of reset. -/

namespace DsdOrsoc.Yadmc

abbrev Bank := BitVec 2
abbrev Row := BitVec 13
abbrev Column := BitVec 9

/-- `evict_row`, `refill_row`. -/
def rowOf (a : LineAdr) : Row := a.extractLsb' 8 13

/-- `evict_column`, `refill_column`: the line starts at a multiple of eight half-words. -/
def columnOf (a : LineAdr) : Column := a.extractLsb' 2 6 ++ 0#3

/-- `evict_bank`, `refill_bank`. -/
def bankOf (a : LineAdr) : Bank := a.extractLsb' 0 2

/-- The states of the machine that runs everything. -/
inductive SdramState where
  | reset
  | initPrechargeall | initAutorefresh1 | initAutorefresh2 | initLoadmode
  | idle
  | prechargeBeforeRefresh | autorefresh | waitRefresh
  | prechargeBeforeWrite | activateBeforeWrite | write | writeburst
  | prechargeBeforeRead | activateBeforeRead | read
  | readreg1 | readreg2 | readreg3 | readfirst | readburst
  deriving DecidableEq

/-- The registered pins; `dqm` stands for both bits of `sdram_dqm`, which are equal. -/
structure Pins where
  cke : Bool
  csN : Bool
  weN : Bool
  casN : Bool
  rasN : Bool
  dqm : Bool
  ba : Bank
  adr : BitVec 13
  dqOut : BitVec 16
  dqDriveN : Bool

/-- Inputs of one sdram_clk cycle: command port, configuration registers, cache data, data pins. -/
structure SdramIn where
  commandEvict : Bool
  commandRefill : Bool
  evictAdr : LineAdr
  refillAdr : LineAdr
  cfg0 : BitVec 32
  cfg1 : BitVec 32
  cacheDatI : BitVec 32
  dqInPort : BitVec 16

/-- The sdram_clk registers. -/
structure Sdram16 where
  state : SdramState
  initCounter : BitVec 16
  prechargeallCounter : BitVec 3
  prechargeCounter : BitVec 3
  autorefreshCounter : BitVec 4
  activateCounter : BitVec 3
  refreshCounter : BitVec 16
  active : Bank → Bool
  openrow : Bank → Row
  trackRow : Row
  trackBank : Bank
  evictNeedsRowswitchR : Bool
  refillNeedsRowswitchR : Bool
  burstCounter : BitVec 4
  cacheAdrMsb : BitVec 9
  commandEvictPending : Bool
  commandRefillPending : Bool
  pins : Pins
  dqIn : BitVec 16

/-- The combinational outputs of the state machine, with their defaults: do nothing with the SDRAM
    and keep the burst counter in reset. -/
structure SdramOut where
  nextState : SdramState
  cke : Bool := true
  csN : Bool := false
  weN : Bool := true
  casN : Bool := true
  rasN : Bool := true
  dqm : Bool := true
  ba : Bank := 0
  dqDrive : Bool := false
  adrLoadMode : Bool := false
  adrLoadEvictrow : Bool := false
  adrLoadEvictcolumn : Bool := false
  adrLoadRefillrow : Bool := false
  adrLoadRefillcolumn : Bool := false
  adrLoadA10 : Bool := false
  reloadInitCounter : Bool := false
  reloadPrechargeallCounter : Bool := false
  reloadPrechargeCounter : Bool := false
  reloadAutorefreshCounter : Bool := false
  reloadActivateCounter : Bool := false
  reloadRefreshCounter : Bool := false
  trackOpen : Bool := false
  trackClose : Bool := false
  trackCloseall : Bool := false
  loadTrackWithEvict : Bool := false
  loadTrackWithRefill : Bool := false
  reloadBurstCounter : Bool := true
  cacheWe : BitVec 4 := 0
  loadCacheMsbEvict : Bool := false
  loadCacheMsbRefill : Bool := false
  commandAck : Bool := false

/-- A timing counter: loaded on request, else counting down to zero. -/
def countdown {w : ℕ} (reload : Bool) (start count : BitVec w) : BitVec w :=
  if reload then start else if count = 0 then count else count - 1

namespace Sdram16

variable (s : Sdram16) (i : SdramIn)

/-- The wires `init_done`, `prechargeall_done`, `precharge_done`, `autorefresh_done`,
    `activate_done` and `needs_refresh`: the counter has reached zero. -/
def initDone : Bool := s.initCounter = 0

def prechargeallDone : Bool := s.prechargeallCounter = 0

def prechargeDone : Bool := s.prechargeCounter = 0

def autorefreshDone : Bool := s.autorefreshCounter = 0

def activateDone : Bool := s.activateCounter = 0

def needsRefresh : Bool := s.refreshCounter = 0

/-- `evict_needs_rowswitch` and `refill_needs_rowswitch`: is another row to be activated? -/
def needsRowswitch (a : LineAdr) : Bool :=
  s.openrow (bankOf a) ≠ rowOf a || !s.active (bankOf a)

def burstFinished : Bool := s.burstCounter[3]

def burstLast : Bool := s.burstCounter[0] && s.burstCounter[1] && s.burstCounter[2]

/-- Next state and outputs of the state machine. -/
def out : SdramOut :=
  match s.state with
  | .reset => { nextState := .initPrechargeall, reloadInitCounter := true }
  | .initPrechargeall =>
    if s.initDone then
      -- PRECHARGE ALL
      { nextState := .initAutorefresh1, cke := false, rasN := false, weN := false, dqm := false,
        adrLoadA10 := true, trackCloseall := true, reloadPrechargeallCounter := true }
    else { nextState := .initPrechargeall }
  | .initAutorefresh1 =>
    if s.prechargeallDone then
      -- AUTO REFRESH
      { nextState := .initAutorefresh2, rasN := false, casN := false, dqm := false,
        reloadAutorefreshCounter := true }
    else { nextState := .initAutorefresh1 }
  | .initAutorefresh2 =>
    if s.autorefreshDone then
      -- AUTO REFRESH
      { nextState := .initLoadmode, rasN := false, casN := false, dqm := false,
        reloadAutorefreshCounter := true }
    else { nextState := .initAutorefresh2 }
  | .initLoadmode =>
    if s.autorefreshDone then
      -- LOAD MODE
      { nextState := .idle, rasN := false, casN := false, weN := false, dqm := false,
        adrLoadMode := true, reloadRefreshCounter := true }
    else { nextState := .initLoadmode }
  | .idle =>
    if s.needsRefresh then { nextState := .prechargeBeforeRefresh }
    else if i.commandEvict || s.commandEvictPending then
      { nextState := .prechargeBeforeWrite, loadCacheMsbEvict := true }
    else if i.commandRefill || s.commandRefillPending then
      { nextState := .prechargeBeforeRead, loadCacheMsbRefill := true }
    else { nextState := .idle }
  | .prechargeBeforeRefresh =>
    -- PRECHARGE ALL
    { nextState := .autorefresh, cke := false, rasN := false, weN := false, dqm := false,
      adrLoadA10 := true, trackCloseall := true, reloadPrechargeallCounter := true }
  | .autorefresh =>
    if s.prechargeallDone then
      -- AUTO REFRESH
      { nextState := .waitRefresh, rasN := false, casN := false, dqm := false,
        reloadAutorefreshCounter := true }
    else { nextState := .autorefresh }
  | .waitRefresh =>
    if s.autorefreshDone then { nextState := .idle, reloadRefreshCounter := true }
    else { nextState := .waitRefresh }
  | .prechargeBeforeWrite =>
    if s.evictNeedsRowswitchR then
      -- PRECHARGE of the bank
      { nextState := .activateBeforeWrite, rasN := false, weN := false, dqm := false,
        ba := bankOf i.evictAdr, loadTrackWithEvict := true, reloadPrechargeCounter := true }
    else { nextState := .write, loadTrackWithEvict := true }
  | .activateBeforeWrite =>
    if s.prechargeDone then
      -- ACTIVATE
      { nextState := .write, rasN := false, dqm := false, ba := bankOf i.evictAdr,
        adrLoadEvictrow := true, trackOpen := true, reloadActivateCounter := true }
    else { nextState := .activateBeforeWrite }
  | .write =>
    if s.activateDone then
      -- WRITE without auto precharge
      { nextState := .writeburst, casN := false, weN := false, dqm := false,
        ba := bankOf i.evictAdr, adrLoadEvictcolumn := true, dqDrive := true,
        reloadBurstCounter := false }
    else { nextState := .write }
  | .writeburst =>
    if s.burstFinished then
      -- one idle cycle for the write recovery time; evictions are followed by refills
      { nextState := .prechargeBeforeRead, loadCacheMsbRefill := true, reloadBurstCounter := false }
    else
      { nextState := .writeburst, dqm := false, dqDrive := true, reloadBurstCounter := false }
  | .prechargeBeforeRead =>
    if s.refillNeedsRowswitchR then
      -- PRECHARGE of the bank
      { nextState := .activateBeforeRead, rasN := false, weN := false, dqm := false,
        ba := bankOf i.refillAdr, loadTrackWithRefill := true, reloadPrechargeCounter := true }
    else { nextState := .read, loadTrackWithRefill := true }
  | .activateBeforeRead =>
    if s.prechargeDone then
      -- ACTIVATE
      { nextState := .read, rasN := false, dqm := false, ba := bankOf i.refillAdr,
        adrLoadRefillrow := true, trackOpen := true, reloadActivateCounter := true }
    else { nextState := .activateBeforeRead }
  | .read =>
    if s.activateDone then
      -- READ without auto precharge
      { nextState := .readreg1, casN := false, dqm := false, ba := bankOf i.refillAdr,
        adrLoadRefillcolumn := true }
    else { nextState := .read }
  | .readreg1 => { nextState := .readreg2, dqm := false }
  | .readreg2 => { nextState := .readreg3, dqm := false }
  | .readreg3 => { nextState := .readfirst, dqm := false }
  | .readfirst => { nextState := .readburst, dqm := false, cacheWe := 0b1100 }
  | .readburst =>
    if s.burstLast then
      { nextState := .idle, commandAck := true, reloadBurstCounter := false }
    else
      { nextState := .readburst, dqm := false, reloadBurstCounter := false,
        cacheWe := if s.burstCounter[0] then 0b1100 else 0b0011 }

/-- `command_ack`, combinational. -/
def commandAck : Bool := (s.out i).commandAck

/-- `next_burst_counter`. -/
def nextBurstCounter : BitVec 4 :=
  if (s.out i).reloadBurstCounter then 0
  else if s.burstFinished then s.burstCounter else s.burstCounter + 1

/-- `cache_adr`: the address of port 1 of the cache RAMs. -/
def cacheAdrO : BitVec 11 := cacheAdr s.cacheAdrMsb ((s.nextBurstCounter i).extractLsb' 1 2)

/-- `cache_dat_o`: both halves carry the registered data pins. -/
def cacheDatO : BitVec 32 := s.dqIn ++ s.dqIn

/-- `sdram_dq_out`: the high half-word of a cache word goes first. -/
def dqOut : BitVec 16 :=
  if s.burstCounter[0] then i.cacheDatI.extractLsb' 0 16 else i.cacheDatI.extractLsb' 16 16

/-- The next value of `sdram_adr`. -/
def adrOut : BitVec 13 :=
  let o := s.out i
  (if o.adrLoadMode then i.cfg0.extractLsb' 0 13 else 0)
    ||| (if o.adrLoadEvictrow then rowOf i.evictAdr else 0)
    ||| (if o.adrLoadEvictcolumn then (columnOf i.evictAdr).setWidth 13 else 0)
    ||| (if o.adrLoadRefillrow then rowOf i.refillAdr else 0)
    ||| (if o.adrLoadRefillcolumn then (columnOf i.refillAdr).setWidth 13 else 0)
    ||| (if o.adrLoadA10 then 1024 else 0)

/-- One rising edge of sdram_clk. -/
def clk : Sdram16 :=
  let o := s.out i
  { state := o.nextState
    initCounter := countdown o.reloadInitCounter (i.cfg0.extractLsb' 16 16) s.initCounter
    prechargeallCounter :=
      countdown o.reloadPrechargeallCounter (i.cfg1.extractLsb' 0 3) s.prechargeallCounter
    prechargeCounter :=
      countdown o.reloadPrechargeCounter (i.cfg1.extractLsb' 3 3) s.prechargeCounter
    autorefreshCounter :=
      countdown o.reloadAutorefreshCounter (i.cfg1.extractLsb' 6 4) s.autorefreshCounter
    activateCounter := countdown o.reloadActivateCounter (i.cfg1.extractLsb' 10 3) s.activateCounter
    refreshCounter := countdown o.reloadRefreshCounter (i.cfg1.extractLsb' 16 16) s.refreshCounter
    active :=
      if o.trackCloseall then fun _ => false
      else if o.trackClose then Function.update s.active s.trackBank false
      else if o.trackOpen then Function.update s.active s.trackBank true else s.active
    openrow :=
      if o.trackOpen && !o.trackCloseall && !o.trackClose then
        Function.update s.openrow s.trackBank s.trackRow else s.openrow
    trackRow :=
      if o.loadTrackWithRefill then rowOf i.refillAdr
      else if o.loadTrackWithEvict then rowOf i.evictAdr else s.trackRow
    trackBank :=
      if o.loadTrackWithRefill then bankOf i.refillAdr
      else if o.loadTrackWithEvict then bankOf i.evictAdr else s.trackBank
    evictNeedsRowswitchR := s.needsRowswitch i.evictAdr
    refillNeedsRowswitchR := s.needsRowswitch i.refillAdr
    burstCounter := s.nextBurstCounter i
    cacheAdrMsb :=
      if o.loadCacheMsbEvict then lineIndex i.evictAdr
      else if o.loadCacheMsbRefill then lineIndex i.refillAdr else s.cacheAdrMsb
    commandEvictPending := if o.commandAck then false else i.commandEvict || s.commandEvictPending
    commandRefillPending :=
      if o.commandAck then false else i.commandRefill || s.commandRefillPending
    pins :=
      { cke := o.cke, csN := o.csN, weN := o.weN, casN := o.casN, rasN := o.rasN, dqm := o.dqm,
        ba := o.ba, adr := s.adrOut i, dqOut := s.dqOut i, dqDriveN := !o.dqDrive }
    dqIn := i.dqInPort }

/-- The next state. -/
theorem state_clk : (s.clk i).state =
    match s.state with
    | .reset => .initPrechargeall
    | .initPrechargeall => if s.initDone then .initAutorefresh1 else .initPrechargeall
    | .initAutorefresh1 => if s.prechargeallDone then .initAutorefresh2 else .initAutorefresh1
    | .initAutorefresh2 => if s.autorefreshDone then .initLoadmode else .initAutorefresh2
    | .initLoadmode => if s.autorefreshDone then .idle else .initLoadmode
    | .idle =>
      if s.needsRefresh then .prechargeBeforeRefresh
      else if i.commandEvict || s.commandEvictPending then .prechargeBeforeWrite
      else if i.commandRefill || s.commandRefillPending then .prechargeBeforeRead else .idle
    | .prechargeBeforeRefresh => .autorefresh
    | .autorefresh => if s.prechargeallDone then .waitRefresh else .autorefresh
    | .waitRefresh => if s.autorefreshDone then .idle else .waitRefresh
    | .prechargeBeforeWrite => if s.evictNeedsRowswitchR then .activateBeforeWrite else .write
    | .activateBeforeWrite => if s.prechargeDone then .write else .activateBeforeWrite
    | .write => if s.activateDone then .writeburst else .write
    | .writeburst => if s.burstFinished then .prechargeBeforeRead else .writeburst
    | .prechargeBeforeRead => if s.refillNeedsRowswitchR then .activateBeforeRead else .read
    | .activateBeforeRead => if s.prechargeDone then .read else .activateBeforeRead
    | .read => if s.activateDone then .readreg1 else .read
    | .readreg1 => .readreg2
    | .readreg2 => .readreg3
    | .readreg3 => .readfirst
    | .readfirst => .readburst
    | .readburst => if s.burstLast then .idle else .readburst := by
  rw [clk]
  fun_cases out s i <;> simp [*]

end Sdram16

/-! ### Commands -/

/-- The commands of an SDRAM chip, with what it takes from `ba` and the address lines. -/
inductive Cmd where
  | nop
  | burstStop
  | precharge (b : Bank)
  | prechargeAll
  | activate (b : Bank) (r : Row)
  | read (b : Bank) (c : Column) (autoPrecharge : Bool)
  | write (b : Bank) (c : Column) (autoPrecharge : Bool)
  | autoRefresh
  | loadMode (mode : BitVec 13)
  deriving DecidableEq

/-- The command on the pins, by `cs_n`, `ras_n`, `cas_n` and `we_n`; A10 selects PRECHARGE ALL. -/
def Pins.cmd (p : Pins) : Cmd :=
  if p.csN then .nop
  else match p.rasN, p.casN, p.weN with
    | true, true, true => .nop
    | true, true, false => .burstStop
    | true, false, true => .read p.ba (p.adr.extractLsb' 0 9) p.adr[10]
    | true, false, false => .write p.ba (p.adr.extractLsb' 0 9) p.adr[10]
    | false, true, true => .activate p.ba p.adr
    | false, true, false => if p.adr[10] then .prechargeAll else .precharge p.ba
    | false, false, true => .autoRefresh
    | false, false, false => .loadMode p.adr

end DsdOrsoc.Yadmc
