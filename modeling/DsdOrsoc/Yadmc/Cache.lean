import Mathlib.Tactic
import DsdOrsoc.Schemes.Bits

/-! The sys_clk side of the SDRAM controller `yadmc`: RAM blocks, address split, and the Wishbone
    and cache management state machine, at the instantiated parameters (sdram_depth 25,
    cache_depth 9, cache_linedepth 2, hence 12 tag bits). A word address is split as

        wb_adr_i[24:2] = TTTTTTTTTTTT IIIIIIIII LL     (tag, index in the cache, index in the line)

    The registers are those of the blocks out of reset; a step is one rising edge of sys_clk. -/

namespace DsdOrsoc.Yadmc

abbrev Byte := BitVec 8

/-- One of the four byte lanes of a 32-bit word; each lane has its own cache RAM. -/
abbrev Lane := Fin 4

/-- Address of a 16-byte line: `{tag, index}`. -/
abbrev LineAdr := BitVec 21

/-! ### yadmc_dpram and yadmc_spram -/

/-- `yadmc_dpram`: one storage, two ports with a registered read. -/
structure Dpram (aw dw : ℕ) where
  storage : BitVec aw → BitVec dw
  do0 : BitVec dw
  do1 : BitVec dw

/-- A clock edge of port 0: a write passes the written data to the read register. -/
def Dpram.clk0 {aw dw : ℕ} (r : Dpram aw dw) (adr0 : BitVec aw) (we0 : Bool) (di0 : BitVec dw) :
    Dpram aw dw :=
  if we0 then { r with storage := Function.update r.storage adr0 di0, do0 := di0 }
  else { r with do0 := r.storage adr0 }

/-- A clock edge of port 1. -/
def Dpram.clk1 {aw dw : ℕ} (r : Dpram aw dw) (adr1 : BitVec aw) (we1 : Bool) (di1 : BitVec dw) :
    Dpram aw dw :=
  if we1 then { r with storage := Function.update r.storage adr1 di1, do1 := di1 }
  else { r with do1 := r.storage adr1 }

/-- `yadmc_spram`: the read register takes the stored word from before the write. -/
structure Spram (aw : ℕ) (α : Type) where
  storage : BitVec aw → α
  dout : α

/-- A clock edge of the single-port RAM. -/
def Spram.clk {aw : ℕ} {α : Type} (r : Spram aw α) (adr : BitVec aw) (we : Bool) (di : α) :
    Spram aw α :=
  { storage := if we then Function.update r.storage adr di else r.storage
    dout := r.storage adr }

/-- After an edge of port 0 the read register shows the storage at the presented address. -/
theorem Dpram.clk0_do0 {aw dw : ℕ} (r : Dpram aw dw) (adr0 : BitVec aw) (we0 : Bool)
    (di0 : BitVec dw) : (r.clk0 adr0 we0 di0).do0 = (r.clk0 adr0 we0 di0).storage adr0 := by
  cases we0 <;> simp [clk0]

theorem Dpram.clk0_storage {aw dw : ℕ} (r : Dpram aw dw) (adr0 : BitVec aw) (we0 : Bool)
    (di0 : BitVec dw) (a : BitVec aw) :
    (r.clk0 adr0 we0 di0).storage a = if we0 = true ∧ a = adr0 then di0 else r.storage a := by
  cases we0
  · simp [clk0]
  · simp [clk0, Function.update_apply]

/-! ### yadmc_sync -/

/-- `yadmc_sync`: a flag of clock domain 0 becomes a level change, three flip-flops of domain 1 turn
    it back into a flag. -/
structure Sync where
  toggle : Bool
  sync0 : Bool
  sync1 : Bool
  sync2 : Bool
  deriving DecidableEq

/-- A clock edge of the sending domain. -/
def Sync.clk0 (y : Sync) (flagi : Bool) : Sync := { y with toggle := xor y.toggle flagi }

/-- A clock edge of the receiving domain. -/
def Sync.clk1 (y : Sync) : Sync := { y with sync0 := y.toggle, sync1 := y.sync0, sync2 := y.sync1 }

/-- The recreated flag. -/
def Sync.flago (y : Sync) : Bool := xor y.sync2 y.sync1

/-- No flag is in flight. -/
def Sync.Quiet (y : Sync) : Prop := y.sync0 = y.toggle ∧ y.sync1 = y.toggle ∧ y.sync2 = y.toggle

/-- One flag is in flight: it has been sent and not yet been recreated for a whole cycle. -/
def Sync.Busy (y : Sync) : Prop :=
  y.sync2 = !y.toggle ∧ (y.sync1 = y.toggle → y.sync0 = y.toggle)

theorem Sync.Quiet.flago {y : Sync} (h : y.Quiet) : y.flago = false := by
  simp [Sync.flago, h.2.1, h.2.2]

theorem Sync.Quiet.clk1 {y : Sync} (h : y.Quiet) : y.clk1.Quiet := by
  simp [Sync.Quiet, Sync.clk1, h.1, h.2.1]

theorem Sync.Quiet.send {y : Sync} (h : y.Quiet) : (y.clk0 true).Busy := by
  simp [Sync.Busy, Sync.clk0, h.1, h.2.1, h.2.2]

/-- The flag in flight is recreated once its level has reached the second flip-flop. -/
theorem Sync.Busy.flago {y : Sync} (h : y.Busy) : y.flago = true ↔ y.sync1 = y.toggle := by
  simp only [Sync.flago, h.1]
  cases y.toggle <;> cases y.sync1 <;> simp

/-- The edge that ends the recreated flag leaves nothing in flight. -/
theorem Sync.Busy.clk1_done {y : Sync} (h : y.Busy) (hf : y.flago = true) : y.clk1.Quiet := by
  have h1 := h.flago.1 hf
  simp [Sync.Quiet, Sync.clk1, h1, h.2 h1]

theorem Sync.Busy.clk1_busy {y : Sync} (h : y.Busy) (hf : y.flago = false) : y.clk1.Busy := by
  have h1 : y.sync1 ≠ y.toggle := fun h' => by simp [h.flago.2 h'] at hf
  refine ⟨?_, fun _ => rfl⟩
  simp only [Sync.clk1]
  cases hy : y.sync1 <;> cases ht : y.toggle <;> simp_all

/-! ### Address split -/

/-- `address`: the word address `wb_adr_i[24:2]`. -/
def address (wbAdrI : BitVec 32) : BitVec 23 := wbAdrI.extractLsb' 2 23

def cacheTag (a : BitVec 23) : BitVec 12 := a.extractLsb' 11 12

def cacheIndex (a : BitVec 23) : BitVec 9 := a.extractLsb' 2 9

def cacheLindex (a : BitVec 23) : BitVec 2 := a.extractLsb' 0 2

/-- `{cache_index, cache_lindex}`: the address of the word in the cache RAMs. -/
def cacheAdr (index : BitVec 9) (lindex : BitVec 2) : BitVec 11 := index ++ lindex

/-- `{tag, index}`: the address of a line. -/
def lineAdr (tag : BitVec 12) (index : BitVec 9) : LineAdr := tag ++ index

/-- The index part of a line address, `adr[cache_depth-1:0]`. -/
def lineIndex (a : LineAdr) : BitVec 9 := a.extractLsb' 0 9

/-- Byte `l` of a 32-bit word. -/
def laneByte (w : BitVec 32) (l : Lane) : Byte := w.extractLsb' (8 * l) 8

theorem cacheAdr_inj {i i' : BitVec 9} {j j' : BitVec 2} :
    cacheAdr i j = cacheAdr i' j' ↔ i = i' ∧ j = j' := Schemes.append_inj

theorem lineAdr_inj {t t' : BitVec 12} {i i' : BitVec 9} :
    lineAdr t i = lineAdr t' i' ↔ t = t' ∧ i = i' := Schemes.append_inj

/-- Tag, index and line index determine the word address. -/
theorem address_ext {a b : BitVec 23} (ht : cacheTag a = cacheTag b)
    (hi : cacheIndex a = cacheIndex b) (hl : cacheLindex a = cacheLindex b) : a = b := by
  refine Schemes.slice_ext (v := 12) (w := 11) ht ?_
  refine Schemes.slice_ext (v := 9) (w := 2) ?_ ?_
  · rw [BitVec.extractLsb'_extractLsb'_of_le (by decide),
      BitVec.extractLsb'_extractLsb'_of_le (by decide)]
    exact hi
  · rw [BitVec.extractLsb'_extractLsb'_of_le (by decide),
      BitVec.extractLsb'_extractLsb'_of_le (by decide)]
    exact hl

/-! ### Wishbone and cache management state machine -/

/-- `IDLE`, `CHECK_HIT`, `WAIT_ACK`. -/
inductive CacheState where | idle | checkHit | waitAck
  deriving DecidableEq

/-- A word of the tag RAM: the LSB is the dirty bit, there is no valid bit. -/
structure CacheTag where
  tag : BitVec 12
  dirty : Bool
  deriving DecidableEq

/-- The Wishbone request lines, without `cyc` and `stb`. -/
structure Wb where
  adr : BitVec 32
  dat : BitVec 32
  sel : BitVec 4
  we : Bool
  deriving DecidableEq

/-- Inputs of one sys_clk cycle. -/
structure CacheIn where
  wb : Wb
  cyc : Bool
  stb : Bool
  commandAck : Bool

/-- The sys_clk registers and RAMs; `cacheline l` is the RAM of byte lane `l`. -/
structure Cache where
  state : CacheState
  cacheline : Lane → Dpram 11 8
  cachetags : Spram 9 CacheTag
  evictAdr : LineAdr
  refillAdr : LineAdr

/-- The combinational outputs of the state machine. -/
structure CacheOut where
  nextState : CacheState
  wbAckO : Bool := false
  cachetagsWe : Bool := false
  cachetagsWriteDirty : Bool := false
  commandEvict : Bool := false
  commandRefill : Bool := false

namespace Cache

variable (s : Cache) (i : CacheIn)

/-- `cache_hit`: the registered tag word against the tag on the bus. -/
def cacheHit : Bool := s.cachetags.dout.tag = cacheTag (address i.wb.adr)

/-- `cache_is_dirty`: the LSB of the registered tag word. -/
def cacheIsDirty : Bool := s.cachetags.dout.dirty

/-- `wb_dat_o`: the registered read ports of the four lanes. -/
def wbDatO (l : Lane) : Byte := (s.cacheline l).do0

/-- Next state and outputs of the state machine. -/
def out : CacheOut :=
  match s.state with
  | .idle => { nextState := if i.cyc && i.stb then .checkHit else .idle }
  | .checkHit =>
    if s.cacheHit i then
      { nextState := .idle, wbAckO := true, cachetagsWe := i.wb.we, cachetagsWriteDirty := true }
    else if s.cacheIsDirty then
      -- the low-level controller refills by itself after an eviction
      { nextState := .waitAck, commandEvict := true }
    else
      { nextState := .waitAck, commandRefill := true }
  | .waitAck =>
    if i.commandAck then
      { nextState := .idle, wbAckO := true, cachetagsWe := true, cachetagsWriteDirty := i.wb.we }
    else { nextState := .waitAck }

/-- One rising edge of sys_clk. -/
def sysClk : Cache :=
  let o := s.out i
  let a := address i.wb.adr
  { state := o.nextState
    cacheline := fun l => (s.cacheline l).clk0 (cacheAdr (cacheIndex a) (cacheLindex a))
      (o.wbAckO && i.wb.we && i.wb.sel.getLsbD l) (laneByte i.wb.dat l)
    cachetags := s.cachetags.clk (cacheIndex a) o.cachetagsWe
      { tag := cacheTag a, dirty := o.cachetagsWriteDirty }
    evictAdr := if o.commandEvict || o.commandRefill then
      lineAdr s.cachetags.dout.tag (cacheIndex a) else s.evictAdr
    refillAdr := if o.commandEvict || o.commandRefill then
      lineAdr (cacheTag a) (cacheIndex a) else s.refillAdr }

end Cache

end DsdOrsoc.Yadmc
