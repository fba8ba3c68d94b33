import DsdOrsoc.Schemes.Machine
import DsdOrsoc.Schemes.SyncRam

/-! The instruction cache: `or1200_ic_top` with `or1200_ic_fsm`, 8 KB, one way, lines of four words.
    Tag and data RAM answer one cycle late, so a fetch is evaluated in the cycle after its address;
    the tag is marked valid by the first word of a refill and the other three follow, in wrapping
    order, without the requester:

        IDLE ──fetch──▶ CFETCH ──miss, first word──▶ LREFILL3 ──last word──▶ IDLE
                         │ ↺ hit
                         └─ abort, error, inhibited ─▶ IDLE

    Here nothing is invalidated while the cache runs and the memory behind it is constant; the
    invariant is stated for what `Or1200.Invalidation` needs as well. -/

namespace DsdOrsoc.Or1200
open Schemes

/-- An address as the cache slices it: `[31:13]`, `[12:4]` and `[3:2]`. Nothing looks at `[1:0]`. -/
@[ext] structure FetchAdr where
  tag : BitVec 19
  line : BitVec 9
  word : BitVec 2
  deriving DecidableEq

/-! ### The state machine -/

/-- `OR1200_ICFSM_*`; `IFETCH` is never entered. -/
inductive IcState where | idle | cfetch | lrefill3 | ifetch
  deriving DecidableEq

/-- The registers of `or1200_ic_fsm`. -/
structure IcFsm where
  state : IcState
  savedAddr : FetchAdr
  hitmissEval : Bool
  load : Bool
  cnt : BitVec 3
  cacheInhibit : Bool

/-- The inputs of `or1200_ic_fsm`. -/
structure IcFsmIn where
  icEn : Bool
  cycstb : Bool
  ci : Bool
  tagcompMiss : Bool
  valid : Bool
  error : Bool
  startAddr : FetchAdr

namespace IcFsm

def reset : IcFsm where
  state := .idle
  savedAddr := ⟨0, 0, 0⟩
  hitmissEval := false
  load := false
  cnt := 0
  cacheInhibit := false

variable (f : IcFsm) (i : IcFsmIn)

/-- `biu_read`. -/
def biuRead : Bool := (f.hitmissEval && i.tagcompMiss) || (!f.hitmissEval && f.load)

/-- `tag_we` and `icram_we`. -/
def tagWe : Bool := f.biuRead i && i.valid && !f.cacheInhibit

def firstHitAck : Bool :=
  decide (f.state = .cfetch) && f.hitmissEval && !i.tagcompMiss && !f.cacheInhibit

def firstMissAck : Bool := decide (f.state = .cfetch) && i.valid

def firstMissErr : Bool := decide (f.state = .cfetch) && i.error

/-- Back to `IDLE` from a fetch. -/
def toIdle : IcFsm :=
  { f with state := .idle, hitmissEval := false, load := false, cacheInhibit := false }

/-- The assignments at the head of `CFETCH`, which its branches may override. -/
def evalAddr : IcFsm :=
  { f with
    cacheInhibit := if i.cycstb && i.ci then true else f.cacheInhibit
    savedAddr :=
      if f.hitmissEval then { f.savedAddr with tag := i.startAddr.tag } else f.savedAddr }

/-- `saved_addr_r[3:2] <= saved_addr_r[3:2] + 1`. -/
def nextWord (a old : FetchAdr) : FetchAdr := { a with word := old.word + 1 }

/-- One rising edge of the clock. -/
def clk : IcFsm :=
  match f.state with
  | .idle =>
    if i.icEn && i.cycstb then
      { f with state := .cfetch, savedAddr := i.startAddr, hitmissEval := true, load := true,
               cacheInhibit := i.ci }
    else { f with hitmissEval := false, load := false, cacheInhibit := false }
  | .cfetch =>
    if !i.icEn || (f.hitmissEval && !i.cycstb) || i.error || (f.cacheInhibit && i.valid) then
      (f.evalAddr i).toIdle
    else if i.tagcompMiss && i.valid then
      { f.evalAddr i with
        state := .lrefill3, savedAddr := nextWord (f.evalAddr i).savedAddr f.savedAddr,
        hitmissEval := false, cnt := 2, cacheInhibit := false }
    else if !i.cycstb then (f.evalAddr i).toIdle
    else if !i.tagcompMiss && !i.ci then
      { f.evalAddr i with savedAddr := i.startAddr, cacheInhibit := false }
    else { f.evalAddr i with hitmissEval := false }
  | .lrefill3 =>
    if !i.icEn then
      { f with state := .idle, savedAddr := i.startAddr, hitmissEval := false, load := false }
    else if i.valid && decide (f.cnt ≠ 0) then
      { f with cnt := f.cnt - 1, savedAddr := nextWord f.savedAddr f.savedAddr }
    else if i.valid then
      { f with state := .idle, savedAddr := i.startAddr, hitmissEval := false, load := false }
    else f
  | .ifetch => { f with state := .idle }

variable {f i}

/-- Nothing new for the fetch in progress. -/
theorem evalAddr_eq (hci : i.ci = f.cacheInhibit) (htag : i.startAddr.tag = f.savedAddr.tag) :
    f.evalAddr i = f := by
  have hinh : (if i.cycstb && i.ci then true else f.cacheInhibit) = f.cacheInhibit := by
    rw [hci]
    cases f.cacheInhibit <;> simp
  simp only [evalAddr, hinh, htag, ite_self]

end IcFsm

/-! ### The cache -/

/-- The state machine with the tag RAM (tag and valid bit) and the data RAM. -/
structure Icache where
  fsm : IcFsm
  tags : SyncRam (BitVec 9) (BitVec 19 × Bool)
  ram : SyncRam (BitVec 9 × BitVec 2) (BitVec 32)

/-- The input pins: the requester, the bus and the SPR access that invalidates a line. -/
structure IcacheIn where
  icEn : Bool
  adr : FetchAdr
  cycstb : Bool
  ci : Bool
  dat : BitVec 32
  ack : Bool
  err : Bool
  icInv : Bool
  sprLine : BitVec 9

namespace Icache

variable (s : Icache) (i : IcacheIn)

def tagcompMiss : Bool :=
  decide (s.tags.doq.1 ≠ s.fsm.savedAddr.tag) || !s.tags.doq.2

/-- The pins of the state machine. -/
@[simps] def fsmIn : IcFsmIn where
  icEn := i.icEn
  cycstb := i.cycstb
  ci := i.ci
  tagcompMiss := s.tagcompMiss
  valid := i.ack
  error := i.err
  startAddr := i.adr

def biuRead : Bool := s.fsm.biuRead (s.fsmIn i)

/-- `ic_addr`, also `icbiu_adr_o`. -/
def icAddr : FetchAdr := if s.biuRead i then s.fsm.savedAddr else i.adr

/-- `icbiu_cyc_o` and `icbiu_stb_o`. -/
def biuCyc : Bool := if i.icEn then s.biuRead i else i.cycstb

def ackO : Bool :=
  if i.icEn then s.fsm.firstHitAck (s.fsmIn i) || s.fsm.firstMissAck (s.fsmIn i) else i.ack

def errO : Bool := if i.icEn then s.fsm.firstMissErr (s.fsmIn i) else i.err

def datO : BitVec 32 := if s.fsm.firstMissAck (s.fsmIn i) || !i.icEn then i.dat else s.ram.doq

/-- One rising edge of the clock. -/
def clk : Icache where
  fsm := s.fsm.clk (s.fsmIn i)
  tags := s.tags.clk (i.icInv || i.icEn) (s.fsm.tagWe (s.fsmIn i) || i.icInv)
    (if i.icInv then i.sprLine else (s.icAddr i).line) ((s.icAddr i).tag, !i.icInv)
  ram := s.ram.clk i.icEn (s.fsm.tagWe (s.fsmIn i)) ((s.icAddr i).line, (s.icAddr i).word) i.dat

end Icache

/-! ### Requester and bus -/

/-- The cache together with the pins of the cycle before, which the rules of its environment refer
    to. -/
structure Fetching where
  ic : Icache
  lastAdr : FetchAdr
  lastCycstb : Bool
  lastRead : Bool

/-- What requester and bus may do in a cycle. The requester keeps the address while it is not
    answered and changes the page only after a cycle without a request; the bus answers a request
    that was there already in the cycle before, with the word of the memory or an error. -/
structure FetchLegal (mem : FetchAdr → BitVec 32) (ci : BitVec 19 → Bool) (s : Fetching)
    (i : IcacheIn) : Prop where
  icEn : i.icEn = true
  noInv : i.icInv = false
  ci : i.ci = ci i.adr.tag
  hold : s.lastCycstb = true → i.cycstb = true → (s.ic.ackO i || s.ic.errO i) = false →
    i.adr = s.lastAdr
  page : s.lastCycstb = true → i.adr.tag = s.lastAdr.tag
  answers : (i.ack || i.err) = true → s.lastRead = true ∧ s.ic.biuCyc i = true
  either : (i.ack && i.err) = false
  dat : i.ack = true → i.dat = mem (s.ic.icAddr i)

def Fetching.clk (s : Fetching) (i : IcacheIn) : Fetching where
  ic := s.ic.clk i
  lastAdr := i.adr
  lastCycstb := i.cycstb
  lastRead := s.ic.biuCyc i

/-- The cache after reset, with every tag invalid and any RAM contents. -/
structure Fetching.Start (s : Fetching) : Prop where
  fsm : s.ic.fsm = IcFsm.reset
  invalid : ∀ l, (s.ic.tags.mem l).2 = false
  noFetch : s.lastCycstb = false
  noRead : s.lastRead = false

def fetching (mem : FetchAdr → BitVec 32) (ci : BitVec 19 → Bool) :
    Machine Fetching IcacheIn where
  start := Fetching.Start
  legal := FetchLegal mem ci
  step := Fetching.clk

/-- The same rules whatever the memory holds and whatever is invalidated. -/
structure FetchRules (ci : BitVec 19 → Bool) (s : Fetching) (i : IcacheIn) : Prop where
  icEn : i.icEn = true
  ci : i.ci = ci i.adr.tag
  hold : s.lastCycstb = true → i.cycstb = true → (s.ic.ackO i || s.ic.errO i) = false →
    i.adr = s.lastAdr
  page : s.lastCycstb = true → i.adr.tag = s.lastAdr.tag
  answers : (i.ack || i.err) = true → s.lastRead = true ∧ s.ic.biuCyc i = true
  either : (i.ack && i.err) = false

theorem FetchLegal.rules {mem : FetchAdr → BitVec 32} {ci : BitVec 19 → Bool} {s : Fetching}
    {i : IcacheIn} (h : FetchLegal mem ci s i) : FetchRules ci s i :=
  ⟨h.icEn, h.ci, h.hold, h.page, h.answers, h.either⟩

/-! ### Invariant

    Which words are good is left open, and may change from cycle to cycle: with a constant memory
    they are its words, with a memory that is written they are those read late enough. -/

namespace Fetching

variable (good good' : FetchAdr → BitVec 32 → Prop) (ci : BitVec 19 → Bool)

/-- A valid line holds four good words of its tag. -/
def Filled (c : Icache) (l : BitVec 9) : Prop :=
  (c.tags.mem l).2 = true → ∀ w, good ⟨(c.tags.mem l).1, l, w⟩ (c.ram.mem (l, w))

structure Idle (s : Fetching) : Prop where
  state : s.ic.fsm.state = .idle
  noEval : s.ic.fsm.hitmissEval = false
  noLoad : s.ic.fsm.load = false
  filled : ∀ l, Filled good s.ic l

/-- A fetch of the address of the cycle before, evaluated now or already on the bus. The tag RAM may
    show a line that was invalidated in between. -/
structure Cfetch (s : Fetching) : Prop where
  state : s.ic.fsm.state = .cfetch
  load : s.ic.fsm.load = true
  saved : s.ic.fsm.savedAddr = s.lastAdr
  fetched : s.lastCycstb = true
  inhibit : s.ic.fsm.cacheInhibit = ci s.lastAdr.tag
  tagReg : s.ic.fsm.hitmissEval = true →
    s.ic.tags.addrReg = s.lastAdr.line ∨ s.ic.tags.doq.2 = false
  ramReg : s.ic.fsm.hitmissEval = true → s.ic.ram.addrReg = (s.lastAdr.line, s.lastAdr.word)
  eval : s.ic.fsm.hitmissEval = true → s.lastRead = false
  filled : ∀ l, Filled good s.ic l

/-- A refill: `cnt + 1` words are missing, from the saved address on in wrapping order. -/
structure Refill (s : Fetching) : Prop where
  state : s.ic.fsm.state = .lrefill3
  noEval : s.ic.fsm.hitmissEval = false
  load : s.ic.fsm.load = true
  inhibit : s.ic.fsm.cacheInhibit = false
  words : ∀ w, s.ic.fsm.cnt.toNat < (w - s.ic.fsm.savedAddr.word).toNat →
    good { s.ic.fsm.savedAddr with word := w } (s.ic.ram.mem (s.ic.fsm.savedAddr.line, w))
  others : ∀ l, l ≠ s.ic.fsm.savedAddr.line → Filled good s.ic l

def Inv (s : Fetching) : Prop := Idle good s ∨ Cfetch good ci s ∨ Refill good s

/-- The invalidation of another line falls on the last word of a refill, whose tag it keeps from
    being written. -/
def LastWordHit (s : Fetching) (i : IcacheIn) : Prop :=
  s.ic.fsm.state = .lrefill3 ∧ s.ic.fsm.cnt = 0 ∧ i.ack = true ∧ i.icInv = true ∧
    i.sprLine ≠ s.ic.fsm.savedAddr.line

/-- A word arrives for a fetch that the tag RAM does not call a miss although it went to the bus. -/
def LateHit (s : Fetching) (i : IcacheIn) : Prop :=
  s.ic.fsm.state = .cfetch ∧ s.ic.fsm.hitmissEval = false ∧ s.ic.fsm.cacheInhibit = false ∧
    i.ack = true ∧ s.ic.tagcompMiss = false

/-- A line is invalidated during its own refill, before the last word. -/
def OwnLineHit (s : Fetching) (i : IcacheIn) : Prop :=
  s.ic.fsm.state = .lrefill3 ∧ i.icInv = true ∧ i.sprLine = s.ic.fsm.savedAddr.line ∧
    ¬ (i.ack = true ∧ s.ic.fsm.cnt = 0)

/-- A word of the bus is good, and a good word stays good unless its line is invalidated. -/
structure Supply (s : Fetching) (i : IcacheIn) : Prop where
  read : i.ack = true → good' (s.ic.icAddr i) i.dat
  keep : ∀ a d, good a d → (i.icInv = true → i.sprLine ≠ a.line) → good' a d

/-- What the invariant asks of an edge: the three coincidences with an invalidation do no harm. -/
structure Edge (s : Fetching) (i : IcacheIn) : Prop extends Supply good good' s i where
  compared : LateHit s i → s.ic.tags.addrReg = s.ic.fsm.savedAddr.line
  tagKept : LastWordHit s i → (s.ic.tags.mem s.ic.fsm.savedAddr.line).2 = true → ∀ w d,
    good' { s.ic.fsm.savedAddr with word := w } d →
    good' ⟨(s.ic.tags.mem s.ic.fsm.savedAddr.line).1, s.ic.fsm.savedAddr.line, w⟩ d
  wordsKept : OwnLineHit s i → ∀ w, s.ic.fsm.cnt.toNat < (w - s.ic.fsm.savedAddr.word).toNat →
    good { s.ic.fsm.savedAddr with word := w } (s.ic.ram.mem (s.ic.fsm.savedAddr.line, w)) →
    good' { s.ic.fsm.savedAddr with word := w } (s.ic.ram.mem (s.ic.fsm.savedAddr.line, w))

variable {good good' ci} {s : Fetching} {i : IcacheIn}

/-! ### The RAMs in one cycle -/

theorem clk_ram (h : FetchRules ci s i) :
    (s.clk i).ic.ram = s.ic.ram.clk true (s.ic.fsm.tagWe (s.ic.fsmIn i))
      ((s.ic.icAddr i).line, (s.ic.icAddr i).word) i.dat := by
  simp [Fetching.clk, Icache.clk, h.icEn]

/-- An invalidation takes the write port of the tag RAM, also from a word of a refill. -/
theorem clk_tags_mem (h : FetchRules ci s i) : (s.clk i).ic.tags.mem =
    if i.icInv then Function.update s.ic.tags.mem i.sprLine ((s.ic.icAddr i).tag, false)
    else if s.ic.fsm.tagWe (s.ic.fsmIn i) then
      Function.update s.ic.tags.mem (s.ic.icAddr i).line ((s.ic.icAddr i).tag, true)
    else s.ic.tags.mem := by
  cases hi : i.icInv <;> simp [Fetching.clk, Icache.clk, SyncRam.clk, h.icEn, hi]

/-- The tag RAM shows the line of the address, or one that is invalid. -/
theorem clk_tags_addrReg (h : FetchRules ci s i) {a : FetchAdr} (haddr : s.ic.icAddr i = a) :
    (s.clk i).ic.tags.addrReg = a.line ∨ (s.clk i).ic.tags.doq.2 = false := by
  cases hi : i.icInv with
  | false => exact .inl (by simp [Fetching.clk, Icache.clk, SyncRam.clk, h.icEn, hi, haddr])
  | true => exact .inr (by simp [SyncRam.doq, hi, Fetching.clk, Icache.clk, SyncRam.clk])

/-- A line that is valid after the edge was not invalidated, and has its old tag or a new one. -/
theorem tag_of_valid (h : FetchRules ci s i) {l : BitVec 9}
    (hv : ((s.clk i).ic.tags.mem l).2 = true) :
    (i.icInv = true → i.sprLine ≠ l) ∧
    ((s.clk i).ic.tags.mem l = s.ic.tags.mem l ∨
      s.ic.fsm.tagWe (s.ic.fsmIn i) = true ∧ l = (s.ic.icAddr i).line ∧
        (s.clk i).ic.tags.mem l = ((s.ic.icAddr i).tag, true)) := by
  rw [clk_tags_mem h] at hv ⊢
  cases hi : i.icInv with
  | true =>
    rw [hi, if_pos rfl] at hv
    have hne : l ≠ i.sprLine := by
      rintro rfl
      rw [Function.update_self] at hv
      cases hv
    exact ⟨fun _ => hne.symm, .inl (by rw [if_pos rfl, Function.update_of_ne hne])⟩
  | false =>
    refine ⟨nofun, ?_⟩
    cases hwe : s.ic.fsm.tagWe (s.ic.fsmIn i) with
    | false => exact .inl (by simp)
    | true =>
      by_cases hl : l = (s.ic.icAddr i).line
      · exact .inr ⟨rfl, hl, by simp [hl]⟩
      · exact .inl (by simp [hl])

/-- Without an answer of the bus the RAMs are not written. -/
theorem tagWe_of_no_ack (ha : i.ack = false) : s.ic.fsm.tagWe (s.ic.fsmIn i) = false := by
  simp [IcFsm.tagWe, ha]

/-- A line that no word of the bus is written to. -/
theorem filled_of_untouched (h : FetchRules ci s i) (he : Supply good good' s i) {l : BitVec 9}
    (hn : s.ic.fsm.tagWe (s.ic.fsmIn i) = false ∨ l ≠ (s.ic.icAddr i).line)
    (hl : Filled good s.ic l) : Filled good' (s.clk i).ic l := by
  intro hv w
  obtain ⟨hinv, htag⟩ := tag_of_valid h hv
  have hsame : (s.clk i).ic.tags.mem l = s.ic.tags.mem l := by
    rcases htag with htag | ⟨hwe, hline, -⟩
    · exact htag
    · rcases hn with hn | hn
      · cases hn.symm.trans hwe
      · exact absurd hline hn
  have hram : (s.clk i).ic.ram.mem (l, w) = s.ic.ram.mem (l, w) := by
    rw [clk_ram h]
    rcases hn with hn | hn
    · rw [hn]; rfl
    · have hpair : (l, w) ≠ ((s.ic.icAddr i).line, (s.ic.icAddr i).word) :=
        fun he => hn (congrArg Prod.fst he)
      cases s.ic.fsm.tagWe (s.ic.fsmIn i) <;> simp [hpair]
  rw [hsame] at hv
  rw [hsame, hram]
  exact he.keep _ _ (hl hv w) hinv

/-- A word of the bus goes to its place in the line. -/
theorem clk_words (h : FetchRules ci s i) (he : Supply good good' s i)
    (hwe : s.ic.fsm.tagWe (s.ic.fsmIn i) = true) (ha : i.ack = true) {a : FetchAdr}
    (haddr : s.ic.icAddr i = a) {w : BitVec 2}
    (hw : w ≠ a.word → good' { a with word := w } (s.ic.ram.mem (a.line, w))) :
    good' { a with word := w } ((s.clk i).ic.ram.mem (a.line, w)) := by
  rw [clk_ram h, hwe, haddr, SyncRam.clk_write]
  rcases eq_or_ne w a.word with rfl | hne
  · rw [Function.update_self]
    exact haddr ▸ he.read ha
  · have hpair : (a.line, w) ≠ (a.line, a.word) := fun he => hne (congrArg Prod.snd he)
    rw [Function.update_of_ne hpair]
    exact hw hne

/-! ### A fetch in one cycle -/

/-- The bus answers only what it was asked in the cycle before. -/
theorem no_answer_of_not_lastRead (h : FetchRules ci s i) (hr : s.lastRead = false) :
    i.ack = false ∧ i.err = false := by
  have hn : (i.ack || i.err) = false := by
    by_contra hc
    have := (h.answers (Bool.not_eq_false _ ▸ hc)).1
    rw [hr] at this
    cases this
  simpa using hn

theorem no_answer_of_not_read (h : FetchRules ci s i) (hr : s.ic.biuRead i = false) :
    i.ack = false ∧ i.err = false := by
  have hn : (i.ack || i.err) = false := by
    by_contra hc
    have := (h.answers (Bool.not_eq_false _ ▸ hc)).2
    rw [Icache.biuCyc, h.icEn, hr] at this
    cases this
  simpa using hn

/-- What a cycle does to a fetch: it ends without a word for the cache, is a hit, waits for the bus,
    or gets its first word. Then a miss is refilled; a fetch that is no miss any more keeps the one
    word, and the next address goes to the bus without an evaluation. -/
inductive Move (s : Fetching) (i : IcacheIn) : Prop
  | ends (hwe : s.ic.fsm.tagWe (s.ic.fsmIn i) = false)
      (hf : (s.clk i).ic.fsm = (s.ic.fsm.evalAddr (s.ic.fsmIn i)).toIdle)
  | hit (hev : s.ic.fsm.hitmissEval = true) (hm : s.ic.tagcompMiss = false) (ha : i.ack = false)
      (hc : i.cycstb = true) (hci : i.ci = false)
      (hf : (s.clk i).ic.fsm = { s.ic.fsm with savedAddr := i.adr, cacheInhibit := false })
  | wait (ha : i.ack = false) (hc : i.cycstb = true) (hadr : i.adr = s.lastAdr)
      (hm : s.ic.fsm.hitmissEval = true → s.ic.fsm.cacheInhibit = false → s.ic.tagcompMiss = true)
      (hf : (s.clk i).ic.fsm = { s.ic.fsm with hitmissEval := false })
  | refill (hev : s.ic.fsm.hitmissEval = false) (hinh : s.ic.fsm.cacheInhibit = false)
      (ha : i.ack = true) (hm : s.ic.tagcompMiss = true)
      (hf : (s.clk i).ic.fsm = { s.ic.fsm with
        state := .lrefill3, hitmissEval := false, cnt := 2, cacheInhibit := false,
        savedAddr := { s.ic.fsm.savedAddr with word := s.ic.fsm.savedAddr.word + 1 } })
  | word (hlate : LateHit s i)
      (hf : (s.clk i).ic.fsm = (s.ic.fsm.evalAddr (s.ic.fsmIn i)).toIdle ∨ i.cycstb = true ∧
        (s.clk i).ic.fsm = { s.ic.fsm with savedAddr := i.adr, cacheInhibit := false })

/-- The fetch that is neither answered nor given up is held by the requester. -/
theorem Cfetch.move_wait (hs : Cfetch good ci s) (h : FetchRules ci s i) (ha : i.ack = false)
    (he : i.err = false) (hc : i.cycstb = true)
    (hm : s.ic.fsm.hitmissEval = true → s.ic.fsm.cacheInhibit = false → s.ic.tagcompMiss = true) :
    Move s i := by
  have hack : (s.ic.ackO i || s.ic.errO i) = false := by
    simp only [Icache.ackO, Icache.errO, h.icEn, IcFsm.firstHitAck, IcFsm.firstMissAck,
      IcFsm.firstMissErr, Icache.fsmIn, ha, he, if_true]
    cases hev : s.ic.fsm.hitmissEval <;> cases hinh : s.ic.fsm.cacheInhibit <;> simp_all
  have hadr : i.adr = s.lastAdr := h.hold hs.fetched hc hack
  have hci : i.ci = s.ic.fsm.cacheInhibit := by rw [h.ci, hadr, hs.inhibit]
  have heval : s.ic.fsm.evalAddr (s.ic.fsmIn i) = s.ic.fsm :=
    IcFsm.evalAddr_eq hci (by rw [Icache.fsmIn_startAddr, hadr, hs.saved])
  refine .wait ha hc hadr hm ?_
  simp only [Fetching.clk, Icache.clk, IcFsm.clk, hs.state, heval]
  by_cases hlast : s.ic.tagcompMiss = false ∧ i.ci = false
  · -- the tag is there after all; address and inhibit are those of the fetch
    have hev : s.ic.fsm.hitmissEval = false := by
      by_contra hev
      have := hm (by simpa using hev) (hci.symm.trans hlast.2)
      cases hlast.1.symm.trans this
    have hinh := hci.symm.trans hlast.2
    simp [h.icEn, ha, he, hc, hlast, hadr, hs.saved, hev, hinh]
  · have hlast' : (!s.ic.tagcompMiss && !i.ci) = false := by
      cases hm : s.ic.tagcompMiss <;> cases hi : i.ci <;> simp_all
    simp [h.icEn, ha, he, hc, hlast']

theorem Cfetch.move (hs : Cfetch good ci s) (h : FetchRules ci s i) : Move s i := by
  have hci : i.ci = s.ic.fsm.cacheInhibit := by rw [h.ci, h.page hs.fetched, hs.inhibit]
  cases hev : s.ic.fsm.hitmissEval with
  | true =>
    obtain ⟨ha, he⟩ := no_answer_of_not_lastRead h (hs.eval hev)
    cases hc : i.cycstb with
    | false =>
      refine .ends (tagWe_of_no_ack ha) ?_
      simp [Fetching.clk, Icache.clk, IcFsm.clk, hs.state, hev, hc]
    | true =>
      by_cases hhit : s.ic.tagcompMiss = false ∧ i.ci = false
      · refine .hit hev hhit.1 ha hc hhit.2 ?_
        simp [Fetching.clk, Icache.clk, IcFsm.clk, hs.state, IcFsm.evalAddr, ha, he, hc, h.icEn,
          hhit]
      · refine hs.move_wait h ha he hc fun _ hinh => ?_
        by_contra hm
        exact hhit ⟨by simpa using hm, hci.trans hinh⟩
  | false =>
    cases he : i.err with
    | true =>
      have ha : i.ack = false := by simpa [he] using h.either
      refine .ends (tagWe_of_no_ack ha) ?_
      simp [Fetching.clk, Icache.clk, IcFsm.clk, hs.state, he]
    | false =>
      cases ha : i.ack with
      | false =>
        cases hc : i.cycstb with
        | true => exact hs.move_wait h ha he hc fun hc => by cases hev.symm.trans hc
        | false =>
          refine .ends (tagWe_of_no_ack ha) ?_
          simp [Fetching.clk, Icache.clk, IcFsm.clk, hs.state, he, ha, hc]
      | true =>
        cases hinh : s.ic.fsm.cacheInhibit with
        | true =>
          refine .ends (by simp [IcFsm.tagWe, hinh]) ?_
          simp [Fetching.clk, Icache.clk, IcFsm.clk, hs.state, ha, hinh]
        | false =>
          cases hm : s.ic.tagcompMiss with
          | true =>
            refine .refill hev hinh ha hm ?_
            simp [Fetching.clk, Icache.clk, IcFsm.clk, hs.state, h.icEn, hev, he, hinh, ha, hm,
              IcFsm.evalAddr, IcFsm.nextWord]
          | false =>
            refine .word ⟨hs.state, hev, hinh, ha, hm⟩ ?_
            cases hc : i.cycstb with
            | false =>
              left
              simp [Fetching.clk, Icache.clk, IcFsm.clk, hs.state, h.icEn, hev, he, hinh, ha, hm,
                hc]
            | true =>
              right
              simp [Fetching.clk, Icache.clk, IcFsm.clk, hs.state, h.icEn, hev, he, hinh, ha, hm,
                hc, hci, IcFsm.evalAddr]

/-! ### One clock edge -/

theorem Idle.fsm_clk (hs : Idle good s) (h : FetchRules ci s i) : (s.clk i).ic.fsm =
    if i.cycstb then
      { s.ic.fsm with state := .cfetch, savedAddr := i.adr, hitmissEval := true, load := true,
                      cacheInhibit := i.ci }
    else { s.ic.fsm with hitmissEval := false, load := false, cacheInhibit := false } := by
  simp [Fetching.clk, Icache.clk, IcFsm.clk, hs.state, h.icEn]

theorem Idle.addr (hs : Idle good s) : s.ic.icAddr i = i.adr := by
  simp [Icache.icAddr, Icache.biuRead, IcFsm.biuRead, hs.noEval, hs.noLoad]

theorem Idle.clk (hs : Idle good s) (h : FetchRules ci s i) (he : Edge good good' s i) :
    Inv good' ci (s.clk i) := by
  have hread : s.ic.biuRead i = false := by
    simp [Icache.biuRead, IcFsm.biuRead, hs.noEval, hs.noLoad]
  obtain ⟨ha, -⟩ := no_answer_of_not_read h hread
  have hfilled := fun l =>
    filled_of_untouched h he.toSupply (.inl (tagWe_of_no_ack ha)) (hs.filled l)
  have hf := hs.fsm_clk h
  cases hc : i.cycstb with
  | false =>
    rw [hc] at hf
    exact .inl ⟨by rw [hf]; exact hs.state, by rw [hf]; rfl, by rw [hf]; rfl, hfilled⟩
  | true =>
    rw [hc, if_pos rfl] at hf
    have haddr := hs.addr (i := i)
    refine .inr (.inl ⟨by rw [hf], by rw [hf], by rw [hf]; rfl, hc, by rw [hf]; exact h.ci,
      fun _ => ?_, fun _ => ?_, fun _ => ?_, hfilled⟩)
    · exact clk_tags_addrReg h haddr
    · rw [clk_ram h, haddr]; rfl
    · simp [Fetching.clk, Icache.biuCyc, h.icEn, hread]

/-- A fetch that is over. -/
theorem Idle.of_toIdle (hf : (s.clk i).ic.fsm = (s.ic.fsm.evalAddr (s.ic.fsmIn i)).toIdle)
    (hfilled : ∀ l, Filled good' (s.clk i).ic l) : Idle good' (s.clk i) :=
  ⟨by rw [hf]; rfl, by rw [hf]; rfl, by rw [hf]; rfl, hfilled⟩

/-- A fetch that is on the bus reads at the saved address. -/
theorem pending_addr (hev : s.ic.fsm.hitmissEval = false) (hload : s.ic.fsm.load = true) :
    s.ic.icAddr i = s.ic.fsm.savedAddr := by
  simp [Icache.icAddr, Icache.biuRead, IcFsm.biuRead, hev, hload]

theorem pending_tagWe (hev : s.ic.fsm.hitmissEval = false) (hload : s.ic.fsm.load = true)
    (hinh : s.ic.fsm.cacheInhibit = false) (ha : i.ack = true) :
    s.ic.fsm.tagWe (s.ic.fsmIn i) = true := by
  simp [IcFsm.tagWe, IcFsm.biuRead, hev, hload, hinh, ha]

/-- What `tagcomp_miss = 0` says. -/
theorem doq_of_hit (hm : s.ic.tagcompMiss = false) :
    s.ic.tags.doq = (s.ic.fsm.savedAddr.tag, true) := by
  simp only [Icache.tagcompMiss, Bool.or_eq_false_iff, decide_eq_false_iff_not, not_not,
    Bool.not_eq_false'] at hm
  exact Prod.ext hm.1 hm.2

/-- The word of a late hit is written over itself. -/
theorem Cfetch.filled_word (hs : Cfetch good ci s) (h : FetchRules ci s i)
    (he : Edge good good' s i) (hlate : LateHit s i) (l : BitVec 9) :
    Filled good' (s.clk i).ic l := by
  have ⟨_, hev, hinh, ha, hm⟩ := hlate
  have haddr := pending_addr (i := i) hev hs.load
  rcases eq_or_ne l s.ic.fsm.savedAddr.line with rfl | hl
  · intro hv w
    obtain ⟨hinv, htag⟩ := tag_of_valid h hv
    have hold : s.ic.tags.mem s.ic.fsm.savedAddr.line = (s.ic.fsm.savedAddr.tag, true) := by
      rw [← he.compared hlate]
      exact doq_of_hit hm
    have hnew : (s.clk i).ic.tags.mem s.ic.fsm.savedAddr.line =
        (s.ic.fsm.savedAddr.tag, true) := by
      rcases htag with htag | ⟨-, -, htag⟩
      · rw [htag, hold]
      · rw [htag, haddr]
    have hfill := hs.filled s.ic.fsm.savedAddr.line (by rw [hold]) w
    rw [hold] at hfill
    rw [hnew]
    exact clk_words h he.toSupply (pending_tagWe hev hs.load hinh ha) ha haddr fun _ =>
      he.keep _ _ hfill hinv
  · exact filled_of_untouched h he.toSupply (.inr (by rwa [haddr])) (hs.filled l)

/-! The words of a refill: the first, the next and the last one that arrives. -/

theorem first_word : ∀ start w : BitVec 2, (2#3).toNat < (w - (start + 1)).toNat → w = start := by
  decide

theorem next_word : ∀ (cnt : BitVec 3) (start w : BitVec 2), cnt ≠ 0 →
    (cnt - 1).toNat < (w - (start + 1)).toNat → w = start ∨ cnt.toNat < (w - start).toNat := by
  decide

theorem last_word : ∀ start w : BitVec 2, w = start ∨ (0#3).toNat < (w - start).toNat := by
  decide

/-- The first word of a miss starts the refill. -/
theorem Cfetch.toRefill (hs : Cfetch good ci s) (h : FetchRules ci s i) (he : Edge good good' s i)
    (hev : s.ic.fsm.hitmissEval = false) (hinh : s.ic.fsm.cacheInhibit = false) (ha : i.ack = true)
    (hf : (s.clk i).ic.fsm = { s.ic.fsm with
      state := .lrefill3, hitmissEval := false, cnt := 2, cacheInhibit := false,
      savedAddr := { s.ic.fsm.savedAddr with word := s.ic.fsm.savedAddr.word + 1 } }) :
    Refill good' (s.clk i) := by
  have haddr := pending_addr (i := i) hev hs.load
  refine ⟨by rw [hf], by rw [hf], by rw [hf]; exact hs.load, by rw [hf], fun w hw => ?_,
    fun l hl => ?_⟩
  · rw [hf] at hw ⊢
    exact clk_words h he.toSupply (pending_tagWe hev hs.load hinh ha) ha haddr
      fun hne => absurd (first_word _ _ hw) hne
  · rw [hf] at hl
    exact filled_of_untouched h he.toSupply (.inr (by rwa [haddr])) (hs.filled l)

theorem Cfetch.clk (hs : Cfetch good ci s) (h : FetchRules ci s i) (he : Edge good good' s i) :
    Inv good' ci (s.clk i) := by
  have hfilled : s.ic.fsm.tagWe (s.ic.fsmIn i) = false → ∀ l, Filled good' (s.clk i).ic l :=
    fun hwe l => filled_of_untouched h he.toSupply (.inl hwe) (hs.filled l)
  cases hs.move h with
  | ends hwe hf => exact .inl (.of_toIdle hf (hfilled hwe))
  | hit hev hm ha hc hci hf =>
    -- the next address is evaluated in the next cycle
    have hread : s.ic.biuRead i = false := by
      simp [Icache.biuRead, IcFsm.biuRead, hev, hm]
    have haddr : s.ic.icAddr i = i.adr := by simp [Icache.icAddr, hread]
    refine .inr (.inl ⟨by rw [hf, hs.state], by rw [hf, hs.load], by rw [hf]; rfl, hc, ?_,
      fun _ => ?_, fun _ => ?_, fun _ => ?_, hfilled (tagWe_of_no_ack ha)⟩)
    · rw [hf]; exact hci.symm.trans h.ci
    · exact clk_tags_addrReg h haddr
    · rw [clk_ram h, haddr]; rfl
    · simp [Fetching.clk, Icache.biuCyc, h.icEn, hread]
  | wait ha hc hadr hm hf =>
    refine .inr (.inl ⟨by rw [hf, hs.state], by rw [hf, hs.load], ?_, hc, ?_, ?_, ?_, ?_,
      hfilled (tagWe_of_no_ack ha)⟩)
    · rw [hf]; exact hs.saved.trans hadr.symm
    · rw [hf]
      show _ = ci i.adr.tag
      rw [hadr]
      exact hs.inhibit
    all_goals rw [hf]; exact fun hc => by cases hc
  | refill hev hinh ha hm hf => exact .inr (.inr (hs.toRefill h he hev hinh ha hf))
  | word hlate hf =>
    have hfilled := hs.filled_word h he hlate
    rcases hf with hf | ⟨hc, hf⟩
    · exact .inl (.of_toIdle hf hfilled)
    · refine .inr (.inl ⟨by rw [hf, hs.state], by rw [hf, hs.load], by rw [hf]; rfl, hc, ?_, ?_, ?_,
        ?_, hfilled⟩)
      · rw [hf]
        show false = ci i.adr.tag
        rw [h.page hs.fetched, ← hs.inhibit, hlate.2.2.1]
      all_goals rw [hf]; exact fun hc => by cases hlate.2.1.symm.trans hc

/-- The words of the refill that are there outlast an edge before the last word. -/
theorem Refill.words_clk (hs : Refill good s) (he : Edge good good' s i)
    (hmore : ¬ (i.ack = true ∧ s.ic.fsm.cnt = 0)) (w : BitVec 2)
    (hw : s.ic.fsm.cnt.toNat < (w - s.ic.fsm.savedAddr.word).toNat) :
    good' { s.ic.fsm.savedAddr with word := w } (s.ic.ram.mem (s.ic.fsm.savedAddr.line, w)) := by
  by_cases hown : i.icInv = true ∧ i.sprLine = s.ic.fsm.savedAddr.line
  · exact he.wordsKept ⟨hs.state, hown.1, hown.2, hmore⟩ w hw (hs.words w hw)
  · exact he.keep _ _ (hs.words w hw) fun hi hl => hown ⟨hi, hl⟩

/-- After the last word the line holds the four words of the refill. -/
theorem Refill.words_last (hs : Refill good s) (h : FetchRules ci s i) (he : Supply good good' s i)
    (ha : i.ack = true) (hcnt : s.ic.fsm.cnt = 0)
    (hinv : i.icInv = true → i.sprLine ≠ s.ic.fsm.savedAddr.line) (w : BitVec 2) :
    good' { s.ic.fsm.savedAddr with word := w }
      ((s.clk i).ic.ram.mem (s.ic.fsm.savedAddr.line, w)) := by
  refine clk_words h he (pending_tagWe hs.noEval hs.load hs.inhibit ha) ha
    (pending_addr hs.noEval hs.load) fun hne => ?_
  have hw := (last_word s.ic.fsm.savedAddr.word w).resolve_left hne
  exact he.keep _ _ (hs.words w (by rwa [hcnt])) hinv

/-- Its tag is that of the refill then, unless an invalidation took the tag port. -/
theorem Refill.filled_last (hs : Refill good s) (h : FetchRules ci s i) (he : Edge good good' s i)
    (ha : i.ack = true) (hcnt : s.ic.fsm.cnt = 0) :
    Filled good' (s.clk i).ic s.ic.fsm.savedAddr.line := by
  intro hv w
  obtain ⟨hinv, htag⟩ := tag_of_valid h hv
  have haddr := pending_addr (i := i) hs.noEval hs.load
  have hword := hs.words_last h he.toSupply ha hcnt hinv w
  rcases htag with htag | ⟨-, -, htag⟩
  · cases hi : i.icInv with
    | true =>
      rw [htag] at hv ⊢
      exact he.tagKept ⟨hs.state, hcnt, ha, hi, hinv hi⟩ hv w _ hword
    | false =>
      rw [clk_tags_mem h, hi, pending_tagWe hs.noEval hs.load hs.inhibit ha, haddr]
      simpa using hword
  · rw [htag, haddr]
    exact hword

theorem Refill.fsm_last (hs : Refill good s) (h : FetchRules ci s i) (ha : i.ack = true)
    (hcnt : s.ic.fsm.cnt = 0) : (s.clk i).ic.fsm = { s.ic.fsm with
      state := .idle, savedAddr := i.adr, hitmissEval := false, load := false } := by
  simp [Fetching.clk, Icache.clk, IcFsm.clk, hs.state, h.icEn, ha, hcnt]

theorem Refill.clk (hs : Refill good s) (h : FetchRules ci s i) (he : Edge good good' s i) :
    Inv good' ci (s.clk i) := by
  have haddr := pending_addr (i := i) hs.noEval hs.load
  have hothers : ∀ l, l ≠ s.ic.fsm.savedAddr.line → Filled good' (s.clk i).ic l := fun l hl =>
    filled_of_untouched h he.toSupply (.inr (by rwa [haddr])) (hs.others l hl)
  cases ha : i.ack with
  | false =>
    -- the bus is not ready, or has answered with an error that nobody looks at
    have hf : (s.clk i).ic.fsm = s.ic.fsm := by
      simp [Fetching.clk, Icache.clk, IcFsm.clk, hs.state, h.icEn, ha]
    have hram : (s.clk i).ic.ram.mem = s.ic.ram.mem := by
      rw [clk_ram h, tagWe_of_no_ack ha]; rfl
    refine .inr (.inr ⟨by rw [hf, hs.state], by rw [hf, hs.noEval], by rw [hf, hs.load],
      by rw [hf, hs.inhibit], ?_, by rwa [hf]⟩)
    rw [hf, hram]
    exact hs.words_clk he (by simp [ha])
  | true =>
    by_cases hcnt : s.ic.fsm.cnt = 0
    · have hf : (s.clk i).ic.fsm = { s.ic.fsm with
          state := .idle, savedAddr := i.adr, hitmissEval := false, load := false } := by
        simp [Fetching.clk, Icache.clk, IcFsm.clk, hs.state, h.icEn, ha, hcnt]
      refine .inl ⟨by rw [hf], by rw [hf], by rw [hf], fun l => ?_⟩
      rcases eq_or_ne l s.ic.fsm.savedAddr.line with rfl | hl
      · exact hs.filled_last h he ha hcnt
      · exact hothers l hl
    · have hf : (s.clk i).ic.fsm = { s.ic.fsm with
          cnt := s.ic.fsm.cnt - 1,
          savedAddr := { s.ic.fsm.savedAddr with word := s.ic.fsm.savedAddr.word + 1 } } := by
        have hne : s.ic.fsm.cnt ≠ 0#3 := hcnt
        simp [Fetching.clk, Icache.clk, IcFsm.clk, hs.state, h.icEn, ha, hne, IcFsm.nextWord]
      refine .inr (.inr ⟨by rw [hf, hs.state], by rw [hf, hs.noEval], by rw [hf, hs.load],
        by rw [hf, hs.inhibit], fun w hw => ?_, by rwa [hf]⟩)
      rw [hf] at hw ⊢
      refine clk_words h he.toSupply (pending_tagWe hs.noEval hs.load hs.inhibit ha) ha haddr ?_
      exact fun hne =>
        hs.words_clk he (fun hc => hcnt hc.2) w ((next_word _ _ _ hcnt hw).resolve_left hne)

theorem Refill.clk_ne_cfetch (hs : Refill good s) : (s.clk i).ic.fsm.state ≠ .cfetch := by
  simp only [Fetching.clk, Icache.clk, IcFsm.clk, hs.state]
  split_ifs <;> simp [hs.state]

/-- STEP: the invariant survives every edge that keeps to the rules. -/
theorem Inv.clk (hs : Inv good ci s) (h : FetchRules ci s i) (he : Edge good good' s i) :
    Inv good' ci (s.clk i) := by
  rcases hs with hs | hs | hs
  · exact hs.clk h he
  · exact hs.clk h he
  · exact hs.clk h he

theorem Start.inv (hs : s.Start) : Inv good ci s := by
  refine .inl ⟨by rw [hs.fsm]; rfl, by rw [hs.fsm]; rfl, by rw [hs.fsm]; rfl, fun l hl => ?_⟩
  rw [hs.invalid l] at hl
  cases hl

theorem Inv.filled (hs : Inv good ci s) (hst : s.ic.fsm.state ≠ .lrefill3) (l : BitVec 9) :
    Filled good s.ic l := by
  rcases hs with hs | hs | hs
  · exact hs.filled l
  · exact hs.filled l
  · exact absurd hs.state hst

/-! ### Acknowledged words -/

theorem Inv.cfetch (hs : Inv good ci s) (hst : s.ic.fsm.state = .cfetch) : Cfetch good ci s := by
  rcases hs with hs | hs | hs
  · cases hst.symm.trans hs.state
  · exact hs
  · cases hst.symm.trans hs.state

/-- The requester is answered in `CFETCH` only, with a good word of the address of the cycle before:
    one of the cache or one that arrives now. -/
theorem Inv.ack (hs : Inv good ci s) (h : FetchRules ci s i) (he : Supply good good' s i)
    (ha : s.ic.ackO i = true) :
    s.lastCycstb = true ∧
      (good s.lastAdr (s.ic.datO i) ∨ good' s.lastAdr (s.ic.datO i)) := by
  have hack : s.ic.fsm.firstHitAck (s.ic.fsmIn i) = true ∨
      s.ic.fsm.firstMissAck (s.ic.fsmIn i) = true := by
    simpa [Icache.ackO, h.icEn] using ha
  have hst : s.ic.fsm.state = .cfetch := by
    rcases hack with hk | hk
    · simp only [IcFsm.firstHitAck, Bool.and_eq_true, decide_eq_true_eq] at hk
      exact hk.1.1.1
    · simp only [IcFsm.firstMissAck, Bool.and_eq_true, decide_eq_true_eq] at hk
      exact hk.1
  have hc := hs.cfetch hst
  refine ⟨hc.fetched, ?_⟩
  cases hm : s.ic.fsm.firstMissAck (s.ic.fsmIn i) with
  | true =>
    have hi : i.ack = true := by simpa [IcFsm.firstMissAck, hst] using hm
    have hread : s.ic.biuRead i = true := by
      have := (h.answers (by rw [hi, Bool.true_or])).2
      rwa [Icache.biuCyc, h.icEn, if_pos rfl] at this
    have hgood := he.read hi
    rw [Icache.icAddr, hread, if_pos rfl, hc.saved] at hgood
    rw [Icache.datO, hm, Bool.true_or, if_pos rfl]
    exact .inr hgood
  | false =>
    have hk := hack.resolve_right (by rw [hm]; decide)
    simp only [IcFsm.firstHitAck, Bool.and_eq_true, Bool.not_eq_true', Icache.fsmIn_tagcompMiss]
      at hk
    obtain ⟨⟨⟨-, hev⟩, hhit⟩, -⟩ := hk
    have hdoq := doq_of_hit hhit
    have hreg : s.ic.tags.addrReg = s.lastAdr.line :=
      (hc.tagReg hev).resolve_right (by simp [hdoq])
    rw [SyncRam.doq, hreg, hc.saved] at hdoq
    have hgood := hc.filled s.lastAdr.line (by rw [hdoq]) s.lastAdr.word
    rw [hdoq] at hgood
    rw [Icache.datO, hm, h.icEn, SyncRam.doq, hc.ramReg hev]
    exact .inl hgood

/-! ### Without invalidations -/

/-- A fetch is compared with the tag of its line, and goes to the bus only as a miss. -/
def Missed (s : Fetching) : Prop :=
  s.ic.fsm.state = .cfetch → s.ic.tags.addrReg = s.ic.fsm.savedAddr.line ∧
    (s.ic.fsm.hitmissEval = false → s.ic.fsm.cacheInhibit = false → s.ic.tagcompMiss = true)

theorem Start.missed (hs : s.Start) : Missed s := by
  intro hst
  rw [hs.fsm] at hst
  cases hst

variable {mem : FetchAdr → BitVec 32}

theorem clk_addrReg_of_noInv (h : FetchLegal mem ci s i) :
    (s.clk i).ic.tags.addrReg = (s.ic.icAddr i).line := by
  simp [Fetching.clk, Icache.clk, SyncRam.clk, h.icEn, h.noInv]

theorem Missed.clk (hm : Missed s) (hs : Inv good ci s) (h : FetchLegal mem ci s i) :
    Missed (s.clk i) := by
  intro hst
  rw [clk_addrReg_of_noInv h]
  rcases hs with hs | hs | hs
  · have hf := hs.fsm_clk h.rules
    rw [hs.addr]
    cases hc : i.cycstb with
    | false =>
      rw [hf, hc] at hst
      cases hst.symm.trans hs.state
    | true =>
      rw [hf, hc]
      exact ⟨rfl, nofun⟩
  · obtain ⟨hreg, hmiss⟩ := hm hs.state
    cases hs.move h.rules with
    | ends hwe hf => rw [hf] at hst; cases hst
    | hit hev hm ha hc hci hf =>
      have haddr : s.ic.icAddr i = i.adr := by
        simp [Icache.icAddr, Icache.biuRead, IcFsm.biuRead, hev, hm]
      rw [hf, haddr]
      exact ⟨rfl, fun hc => by cases hev.symm.trans hc⟩
    | wait ha hc hadr hm hf =>
      have haddr : s.ic.icAddr i = s.ic.fsm.savedAddr := by
        rw [Icache.icAddr, hadr, hs.saved, ite_self]
      refine ⟨by rw [hf, haddr], fun _ hinh => ?_⟩
      rw [hf] at hinh
      have hdoq : (s.clk i).ic.tags.doq = s.ic.tags.doq := by
        rw [SyncRam.doq, clk_addrReg_of_noInv h, clk_tags_mem h.rules, h.noInv, tagWe_of_no_ack ha,
          haddr, ← hreg]
        rfl
      rw [Icache.tagcompMiss, hdoq, hf]
      cases hev : s.ic.fsm.hitmissEval with
      | true => exact hm hev hinh
      | false => exact hmiss hev hinh
    | refill hev hinh ha hm hf => rw [hf] at hst; cases hst
    | word hlate hf => cases hlate.2.2.2.2.symm.trans (hmiss hlate.2.1 hlate.2.2.1)
  · exact absurd hst hs.clk_ne_cfetch

/-- With a constant memory and no invalidation the good words stay the words of the memory. -/
theorem Missed.edge (hm : Missed s) (h : FetchLegal mem ci s i) :
    Edge (fun a d => d = mem a) (fun a d => d = mem a) s i where
  read := h.dat
  keep _ _ hd _ := hd
  compared hlate := (hm hlate.1).1
  tagKept hlast := by cases h.noInv.symm.trans hlast.2.2.2.1
  wordsKept hown := by cases h.noInv.symm.trans hown.2.1

end Fetching

/-! ### Runs -/

/-- The cache is transparent: every word acknowledged in a cycle is the word of the memory at the
    address presented in the cycle before, and a valid line holds the four words of its tag whenever
    no refill is in progress. -/
theorem icache_transparent (mem : FetchAdr → BitVec 32) (ci : BitVec 19 → Bool)
    (R : (fetching mem ci).Run) (t : ℕ) :
    ((R.state t).ic.ackO (R.input t) = true →
      ∃ n, t = n + 1 ∧ (R.input n).cycstb = true ∧
        (R.state t).ic.datO (R.input t) = mem (R.input n).adr) ∧
    ((R.state t).ic.fsm.state ≠ .lrefill3 → ∀ l, ((R.state t).ic.tags.mem l).2 = true →
      ∀ w, (R.state t).ic.ram.mem (l, w) = mem ⟨((R.state t).ic.tags.mem l).1, l, w⟩) := by
  have hinv : ∀ n, Fetching.Inv (fun a d => d = mem a) ci (R.state n) ∧ (R.state n).Missed :=
    fun n => (R.reachable n).invariant
      (I := fun s => Fetching.Inv (fun a d => d = mem a) ci s ∧ s.Missed)
      (fun _ (hs : Fetching.Start _) => ⟨hs.inv, hs.missed⟩)
      fun _ _ hs (hl : FetchLegal mem ci _ _) =>
        ⟨hs.1.clk hl.rules (hs.2.edge hl), hs.2.clk hs.1 hl⟩
  refine ⟨fun ha => ?_, fun hst => ?_⟩
  · have he := ((hinv t).2.edge (R.legal t)).toSupply
    obtain ⟨hc, hd⟩ := (hinv t).1.ack (R.legal t).rules he ha
    cases t with
    | zero => cases hc.symm.trans R.start.noFetch
    | succ n =>
      have hlast : (R.state (n + 1)).lastAdr = (R.input n).adr ∧
          (R.state (n + 1)).lastCycstb = (R.input n).cycstb := by
        rw [show R.state (n + 1) = (R.state n).clk (R.input n) from R.next n]
        exact ⟨rfl, rfl⟩
      exact ⟨n, rfl, hlast.2.symm.trans hc, by rw [or_self_iff.mp hd, hlast.1]⟩
  · exact (hinv t).1.filled hst

/-! ### A miss, its refill and a hit -/

/-- Every word of the memory is its own address. -/
def adrMem (a : FetchAdr) : BitVec 32 := (a.tag ++ a.line ++ a.word ++ 0#2 : BitVec 32)

/-- The word at 0x202c is fetched and its line refilled; then the word at 0x2020 is fetched. -/
def refillInput (t : ℕ) : IcacheIn where
  icEn := true
  adr := if t ≤ 1 then ⟨1, 2, 3⟩ else ⟨1, 2, 0⟩
  cycstb := decide (t ≤ 6)
  ci := false
  dat := adrMem ⟨1, 2, BitVec.ofNat 2 (t + 1)⟩
  ack := decide (2 ≤ t ∧ t ≤ 5)
  err := false
  icInv := false
  sprLine := 0

def emptyCache : Fetching where
  ic := ⟨IcFsm.reset, ⟨fun _ => (0, false), 0⟩, ⟨fun _ => 0, (0, 0)⟩⟩
  lastAdr := ⟨0, 0, 0⟩
  lastCycstb := false
  lastRead := false

theorem refillInput_legal (t : ℕ) :
    FetchLegal adrMem (fun _ => false)
      ((fetching adrMem fun _ => false).trace emptyCache refillInput t) (refillInput t) := by
  match t with
  | 0 => constructor <;> decide
  | 1 => constructor <;> decide
  | 2 => constructor <;> decide
  | 3 => constructor <;> decide
  | 4 => constructor <;> decide
  | 5 => constructor <;> decide
  | 6 => constructor <;> decide
  | 7 => constructor <;> decide
  | n + 8 =>
    have hc : (refillInput (n + 8)).cycstb = false := by simp [refillInput]
    have hl : (refillInput (n + 7)).cycstb = false := by simp [refillInput]
    have ha : (refillInput (n + 8)).ack = false := by simp [refillInput]
    refine ⟨rfl, rfl, rfl, fun _ h => ?_, fun h => ?_, fun h => ?_, ?_, fun h => ?_⟩
    · cases hc.symm.trans h
    · cases hl.symm.trans h
    · simp [refillInput] at h
    · simp [ha]
    · cases ha.symm.trans h

theorem icache_transparent_refill : ∃ R : (fetching adrMem fun _ => false).Run,
    R.input = refillInput ∧ (R.state 2).ic.ackO (R.input 2) = true ∧
    (R.state 2).ic.datO (R.input 2) = 0x202c ∧ (R.state 7).ic.ackO (R.input 7) = true ∧
    ∃ n, 7 = n + 1 ∧ (R.input n).cycstb = true ∧
      (R.state 7).ic.datO (R.input 7) = adrMem (R.input n).adr := by
  refine ⟨.ofInput emptyCache refillInput ⟨rfl, fun _ => rfl, rfl, rfl⟩ refillInput_legal, rfl,
    by decide, by decide, by decide, ?_⟩
  exact (icache_transparent _ _ _ 7).1 (by decide)

end DsdOrsoc.Or1200
