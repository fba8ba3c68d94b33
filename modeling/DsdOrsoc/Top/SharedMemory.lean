import DsdOrsoc.Conmax.Routing
import DsdOrsoc.Yadmc.EndToEnd

/-! The masters of the bus and the SDRAM: `wb_conmax_top` with `yadmc` and its chip at slave port 0,
    as `or1200_soc_top` connects them. wb_clk moves the matrix and the bus side of the controller
    together, sdram_clk rises at any time.

        master 0 (instructions) ──┐
        master 1 (data) ──────────┤ matrix ── port 0 ── yadmc ── chip
        masters 2 … 7 ────────────┘      └── ports 1 … 15

    The two parts need each other: `yadmc` is a memory only for a bus that holds a request until its
    acknowledge, and it acknowledges without a look at `cyc` and `stb`; the matrix holds a request
    only if a slave answers nothing else. The invariant `Pending` breaks the circle: what `yadmc`
    works on is the request of the master that owns port 0, and that master waits for it. -/

namespace DsdOrsoc.Top.SharedMemory
open Schemes Conmax Yadmc

/-- What a master has to do: nothing, hold a request that has not been answered, or let go of the
    bus for a cycle after an answer. -/
inductive Hold where | free | waits (q : WbReq) | drops

/-- The matrix, the controller with its chip, and the observer of the masters. -/
structure System where
  matrix : Matrix
  sdram : EndToEnd.System
  hold : Master → Hold

/-- Which clocks rise; wb_clk with the lines of the masters and of the slaves at the other ports. -/
inductive Tick where
  | wb (i : MatrixIn)
  | sdram (f : BitVec 16)
  | both (i : MatrixIn) (f : BitVec 16)

/-- The lines of the bus if wb_clk rises. -/
def Tick.lines : Tick → Option MatrixIn
  | .wb i | .both i _ => some i
  | .sdram _ => none

/-- The request lines of a port as the controller has them. -/
def busOf (q : WbReq) : Crossing.Bus where
  wb := { adr := q.adr, dat := q.dat, sel := q.sel, we := q.we }
  cyc := q.cyc
  stb := q.stb

namespace System

variable (s : System)

/-- What stands at the controller. -/
def bus (i : MatrixIn) : Crossing.Bus := busOf (s.matrix.sO i 0)

/-- The answer lines of the controller; `err` and `rty` are tied low. -/
def sdramAns (i : MatrixIn) : WbAns where
  ack := s.sdram.wbAckO (s.bus i)
  err := false
  rty := false
  dat := Transfer.lanes s.sdram.cross.cache.wbDatO

/-- The pins of the matrix. -/
def pins (i : MatrixIn) : MatrixIn where
  m := i.m
  s k := if k = 0 then s.sdramAns i else i.s k

/-- What master `j` sees. -/
def answer (i : MatrixIn) (j : Master) : WbAns := s.matrix.mO (s.pins i) j

/-- The edge at the controller. -/
def edge : Tick → Crossing.Edge
  | .wb i => .sys (s.bus i)
  | .sdram f => .sdram f
  | .both i f => .both (s.bus i) f

def holdNext (i : MatrixIn) (j : Master) : Hold :=
  if (i.m j).cyc && (i.m j).stb then
    if (s.answer i j).ack || (s.answer i j).err then .drops else .waits (i.m j)
  else .free

def step (e : Tick) : System where
  matrix := e.lines.elim s.matrix fun i => s.matrix.clk (s.pins i)
  sdram := s.sdram.step (s.edge e)
  hold := e.lines.elim s.hold fun i => s.holdNext i

/-- The rules of the bus. A master holds its request until it is answered and drops it then; the
    slaves at the other ports answer what stands there; nobody has changed the priorities, and
    `yadmc_cfg0` keeps the mode of the chip. -/
structure Lawful (i : MatrixIn) : Prop where
  waits : ∀ j q, s.hold j = .waits q → i.m j = q
  drops : ∀ j, s.hold j = .drops → (i.m j).cyc = false ∧ (i.m j).stb = false
  slaves : ∀ k, k ≠ 0 → (i.s k).ack = true ∨ (i.s k).err = true →
    (s.matrix.sO i k).cyc = true ∧ (s.matrix.sO i k).stb = true
  conf : ∀ k, s.matrix.rf.conf k = 0
  mode : Crossing.System.cfgWrite (s.bus i) 0xC000000 = true →
    (s.bus i).wb.dat.extractLsb' 0 13 = 0x023

end System

/-- Out of reset, over the content `mem` of the chip. -/
def machine (mem : Bank → Row → Column → BitVec 16) : Machine System Tick where
  start s := s.matrix = Matrix.reset ∧ (EndToEnd.machine mem).start s.sdram ∧
    ∀ j, s.hold j = .free
  legal s e := ∀ i, e.lines = some i → s.Lawful i
  step := System.step

variable {mem : Bank → Row → Column → BitVec 16}

theorem edge_bus (s : System) (e : Tick) : (s.edge e).bus = e.lines.map s.bus := by
  cases e <;> rfl

theorem laneByte_lanes (d : Lane → Byte) (l : Lane) : laneByte (Transfer.lanes d) l = d l := by
  apply BitVec.eq_of_getLsbD_eq
  intro n hn
  fin_cases l <;>
    simp only [laneByte, Transfer.lanes, BitVec.getLsbD_extractLsb', BitVec.getLsbD_append] <;>
    grind

/-! ### The invariant -/

/-- The request `r` that the controller works on is the one of the owner of its port, which holds
    it. -/
structure Pending (s : System) (r : Wb) (j : Master) (q : WbReq) : Prop where
  holds : s.hold j = .waits q
  sel : slvSel q.adr = 0
  lines : (busOf q).wb = r
  owner : (s.matrix.slave 0).mastSel = j
  sCyc : s.matrix.sCyc j 0 = true
  cycR : (s.matrix.slave 0).cycR j = true

/-- INVARIANT. -/
structure Inv (mem : Bank → Row → Column → BitVec 16) (s : System) : Prop where
  reachable : (EndToEnd.machine mem).Reachable s.sdram
  priOut : (s.matrix.slave 0).priOut = 0
  request : ∀ j q, s.hold j = .waits q → q.cyc = true ∧ q.stb = true
  sCyc : ∀ j k, s.matrix.sCyc j k = true →
    (∃ q, s.hold j = .waits q ∧ slvSel q.adr = k) ∨ s.hold j = .drops
  pending : ∀ r, s.sdram.req = some r → ∃ j q, Pending s r j q

section Step

variable {s : System} {i : MatrixIn} {j : Master} {r : Wb} {q : WbReq}

theorem presented_zero_iff : s.matrix.Presented i (.slave 0) j ↔
    (s.matrix.slave 0).mastSel = j ∧ s.matrix.sCyc j 0 = true ∧
      (s.matrix.slave 0).cycR j = true ∧ slvSel (i.m j).adr = 0 ∧ (i.m j).stb = true := by
  rw [Matrix.presented_iff, Matrix.drives_iff]
  constructor
  · rintro ⟨⟨h1, h2, h3, h4⟩, ho, -⟩
    have ho : (s.matrix.slave 0).mastSel = j := ho
    subst ho
    exact ⟨rfl, h1, h2, h3, h4⟩
  · rintro ⟨rfl, h1, h2, h3, h4⟩
    refine ⟨⟨h1, h2, h3, h4⟩, rfl, ?_⟩
    rw [target, h3]
    rfl

/-- What stands at the controller is a request. -/
theorem requests_of_presented (hi : Inv mem s) (hl : s.Lawful i)
    (h : s.matrix.Presented i (.slave 0) j) : (i.m j).cyc = true ∧ (i.m j).stb = true := by
  obtain ⟨-, hcyc, -, -, hstb⟩ := presented_zero_iff.1 h
  refine ⟨?_, hstb⟩
  rcases hi.sCyc j 0 hcyc with ⟨q, hq, -⟩ | hdrop
  · rw [hl.waits j q hq]
    exact (hi.request j q hq).1
  · rw [(hl.drops j hdrop).2] at hstb
    cases hstb

theorem bus_of_presented (hi : Inv mem s) (hl : s.Lawful i)
    (h : s.matrix.Presented i (.slave 0) j) : s.bus i = busOf (i.m j) := by
  obtain ⟨hc, hs⟩ := requests_of_presented hi hl h
  have hseen : s.matrix.sO i 0 = i.m j := Matrix.seen_eq h hc hs
  rw [System.bus, hseen]

/-- A request that the controller works on stands at its port. -/
theorem Pending.presented (h : Pending s r j q) (hi : Inv mem s) (hl : s.Lawful i) :
    s.matrix.Presented i (.slave 0) j ∧ i.m j = q := by
  have hm := hl.waits j q h.holds
  refine ⟨presented_zero_iff.2 ⟨h.owner, h.sCyc, h.cycR, ?_, ?_⟩, hm⟩
  · rw [hm]
    exact h.sel
  · rw [hm]
    exact (hi.request j q h.holds).2

/-- The controller acknowledges what stands at its port. -/
theorem presented_of_ack (hi : Inv mem s) (hl : s.Lawful i)
    (h : s.sdram.wbAckO (s.bus i) = true) : ∃ j, s.matrix.Presented i (.slave 0) j := by
  obtain ⟨r, hr⟩ := Option.ne_none_iff_exists'.1 (EndToEnd.req_of_ack hi.reachable h)
  obtain ⟨j, q, hp⟩ := hi.pending r hr
  exact ⟨j, (hp.presented hi hl).1⟩

/-- The rules of the matrix are kept. -/
theorem matrix_legal (hi : Inv mem s) (hl : s.Lawful i) :
    Matrix.machine.legal s.matrix (s.pins i) := by
  intro k hk
  by_cases h0 : k = 0
  · subst h0
    have hack : s.sdram.wbAckO (s.bus i) = true := by
      rcases hk with hk | hk
      · exact hk
      · cases hk
    obtain ⟨j, h1, h2, -⟩ := presented_of_ack hi hl hack
    exact ⟨h1, h2⟩
  · refine hl.slaves k h0 ?_
    simpa only [System.pins, h0, if_false] using hk

/-- The rules of the controller are kept. -/
theorem sdram_legal (hi : Inv mem s) {e : Tick} (hl : (machine mem).legal s e) :
    (EndToEnd.machine mem).legal s.sdram (s.edge e) := by
  intro b hb
  rw [edge_bus, Option.map_eq_some_iff] at hb
  obtain ⟨i, hi', rfl⟩ := hb
  have hlaw := hl i hi'
  refine ⟨fun r hr => ?_, hlaw.mode⟩
  obtain ⟨j, q, hp⟩ := hi.pending r hr
  obtain ⟨hpres, hm⟩ := hp.presented hi hlaw
  rw [bus_of_presented hi hlaw hpres, hm]
  exact hp.lines

/-- The owner of the port sees the answer of the controller. -/
theorem answer_eq (h : s.matrix.Presented i (.slave 0) j) : s.answer i j = s.sdramAns i := by
  have hp : s.matrix.Presented (s.pins i) (.slave 0) j := h
  exact Matrix.mO_eq hp

/-- With equal priorities level 0 of port 0 is served. -/
theorem priOut_clk (hi : Inv mem s) (hl : s.Lawful i) :
    ((s.matrix.clk (s.pins i)).slave 0).priOut = 0 := by
  change (if (s.matrix.slave 0).next then priEnc _ (pri (s.matrix.rf.conf 0))
    else (s.matrix.slave 0).priOut) = 0
  rw [hl.conf 0, hi.priOut, priEnc_zero, ite_self]

/-- The owner of the port keeps it while it requests. -/
theorem mastSel_clk (hi : Inv mem s) (hl : s.Lawful i)
    (hc : s.matrix.sCyc (s.matrix.slave 0).mastSel 0 = true) :
    ((s.matrix.clk (s.pins i)).slave 0).mastSel = (s.matrix.slave 0).mastSel := by
  rw [SlaveIf.mastSel, priOut_clk hi hl]
  rw [SlaveIf.mastSel, hi.priOut] at hc ⊢
  change arbNext _ (SlaveIf.req (s.matrix.rf.conf 0) _ 0) false = _
  rw [arbNext_eq, hl.conf 0]
  refine RoundRobin.grant_of_req ?_
  simpa [SlaveIf.req, pri, Matrix.masterO] using hc

/-- What a request leaves in the observer. -/
theorem holdNext_request (hc : (i.m j).cyc = true) (hs : (i.m j).stb = true) :
    s.holdNext i j =
      if (s.answer i j).ack || (s.answer i j).err then .drops else .waits (i.m j) := by
  simp [System.holdNext, hc, hs]

/-- A request at the port that is not acknowledged stays with its owner. -/
theorem pending_clk (hi : Inv mem s) (hl : s.Lawful i) (h : s.matrix.Presented i (.slave 0) j)
    (hack : s.sdram.wbAckO (s.bus i) = false) {e : Tick} (he : e.lines = some i) :
    Pending (s.step e) (busOf (i.m j)).wb j (i.m j) := by
  obtain ⟨hc, hs⟩ := requests_of_presented hi hl h
  obtain ⟨ho, hcyc, -, hsel, -⟩ := presented_zero_iff.1 h
  have hm : (s.step e).matrix = s.matrix.clk (s.pins i) ∧ (s.step e).hold = s.holdNext i := by
    simp [System.step, he]
  refine ⟨?_, hsel, rfl, ?_, ?_, ?_⟩
  · rw [hm.2, holdNext_request hc hs, answer_eq h]
    simp [System.sdramAns, hack]
  · rw [hm.1, mastSel_clk hi hl (ho ▸ hcyc), ho]
  · rw [hm.1, Matrix.clk]
    simp only [System.pins, hc, hs, hsel, Bool.not_true, Bool.and_false, Bool.false_eq_true,
      if_false, if_true]
  · rw [hm.1]
    exact hcyc

/-- STEP: a master interface shows a request of its master, or one that has just been answered. -/
theorem sCyc_clk (hi : Inv mem s) (hl : s.Lawful i) {k : Slave}
    (h : (s.matrix.clk (s.pins i)).sCyc j k = true) :
    (∃ q, s.holdNext i j = .waits q ∧ slvSel q.adr = k) ∨ s.holdNext i j = .drops := by
  have hreq : (i.m j).cyc = true ∧ (i.m j).stb = true ∧ slvSel (i.m j).adr = k := by
    change (if (i.m j).cyc && !(i.m j).stb then s.matrix.sCyc j k
      else if slvSel (i.m j).adr = k then (i.m j).cyc else false) = true at h
    split_ifs at h with h1 h2
    · -- `cyc` without `stb` keeps the register, but only of a master that does neither
      simp only [Bool.and_eq_true, Bool.not_eq_true'] at h1
      rcases hi.sCyc j k h with ⟨q, hq, -⟩ | hd
      · rw [hl.waits j q hq, (hi.request j q hq).2] at h1
        cases h1.2
      · rw [(hl.drops j hd).1] at h1
        cases h1.1
    · refine ⟨h, ?_, h2⟩
      simpa [h] using h1
  obtain ⟨hc, hs, hsel⟩ := hreq
  rw [holdNext_request hc hs]
  split
  · exact .inr rfl
  · exact .inl ⟨_, rfl, hsel⟩

/-- STEP: what the controller works on after the edge. -/
theorem pending_step (hi : Inv mem s) {e : Tick} (hl : (machine mem).legal s e)
    (hr : (s.step e).sdram.req = some r) : ∃ j q, Pending (s.step e) r j q := by
  change (s.sdram.step (s.edge e)).req = some r at hr
  rw [EndToEnd.System.step, edge_bus] at hr
  cases he : e.lines with
  | none =>
    rw [he] at hr
    obtain ⟨j, q, hp⟩ := hi.pending r hr
    refine ⟨j, q, ?_⟩
    have hm : (s.step e).matrix = s.matrix ∧ (s.step e).hold = s.hold := by
      simp [System.step, he]
    exact ⟨hm.2 ▸ hp.holds, hp.sel, hp.lines, hm.1 ▸ hp.owner, hm.1 ▸ hp.sCyc, hm.1 ▸ hp.cycR⟩
  | some i =>
    have hlaw := hl i he
    simp only [he, Option.map_some, Option.elim] at hr
    split_ifs at hr with hack hnew
    · have hack : s.sdram.wbAckO (s.bus i) = false := by simpa using hack
      -- a new request
      have hreq : (s.matrix.sO i 0).cyc = true ∧ (s.matrix.sO i 0).stb = true := by
        simpa [System.bus, busOf] using hnew.2
      have hp : s.matrix.Presented i (.slave 0) (s.matrix.slave 0).mastSel :=
        ⟨hreq.1, hreq.2, rfl⟩
      cases hr
      rw [bus_of_presented hi hlaw hp]
      exact ⟨_, _, pending_clk hi hlaw hp hack he⟩
    · have hack : s.sdram.wbAckO (s.bus i) = false := by simpa using hack
      obtain ⟨j, q, hp⟩ := hi.pending r hr
      obtain ⟨hpres, hm⟩ := hp.presented hi hlaw
      refine ⟨j, i.m j, ?_⟩
      rw [← hp.lines, ← hm]
      exact pending_clk hi hlaw hpres hack he

theorem Inv.step (hi : Inv mem s) {e : Tick} (hl : (machine mem).legal s e) :
    Inv mem (s.step e) := by
  refine ⟨hi.reachable.step (sdram_legal hi hl), ?_, ?_, ?_, fun r hr => pending_step hi hl hr⟩
  · cases he : e.lines with
    | none => simpa [System.step, he] using hi.priOut
    | some i => simpa [System.step, he] using priOut_clk hi (hl i he)
  · intro j q hq
    cases he : e.lines with
    | none => exact hi.request j q (by simpa [System.step, he] using hq)
    | some i =>
      simp only [System.step, he, Option.elim, System.holdNext] at hq
      split_ifs at hq with h1 h2
      cases hq
      simpa using h1
  · intro j k hk
    cases he : e.lines with
    | none =>
      simp only [System.step, he, Option.elim] at hk ⊢
      exact hi.sCyc j k hk
    | some i =>
      simp only [System.step, he, Option.elim] at hk ⊢
      exact sCyc_clk hi (hl i he) hk

end Step

theorem inv_start {s : System} (h : (machine mem).start s) : Inv mem s := by
  obtain ⟨hm, hx, hh⟩ := h
  refine ⟨.start hx, by rw [hm]; rfl, fun j q hq => ?_, fun j k hk => ?_, fun r hr => ?_⟩
  · rw [hh] at hq
    cases hq
  · rw [hm] at hk
    cases hk
  · rw [hx.2.2.2.2.2.2.1] at hr
    cases hr

theorem inv_reachable {s : System} (h : (machine mem).Reachable s) : Inv mem s :=
  h.invariant (fun _ => inv_start) fun _ _ hi hl => hi.step hl

/-! ### Answers -/

/-- Master `j` gets an acknowledge of the SDRAM. -/
def Acked (s : System) (i : MatrixIn) (j : Master) : Prop :=
  slvSel (i.m j).adr = 0 ∧ (s.answer i j).ack = true

section Answers

variable {s : System} {i : MatrixIn} {j : Master} {e : Tick}

/-- The acknowledge of a master is the one of the controller, for its own request. -/
theorem Acked.presented (h : Acked s i j) (hi : Inv mem s) (hl : s.Lawful i) :
    s.matrix.Presented i (.slave 0) j ∧ s.sdram.wbAckO (s.bus i) = true := by
  have hp := Matrix.presented_of_answer (matrix_legal hi hl) (.inl h.2)
  have hp : s.matrix.Presented i (target (i.m j).adr) j := hp
  rw [target, h.1] at hp
  refine ⟨hp, ?_⟩
  have hack := h.2
  rwa [answer_eq hp] at hack

theorem acked_of_presented (h : s.matrix.Presented i (.slave 0) j)
    (hack : s.sdram.wbAckO (s.bus i) = true) : Acked s i j := by
  obtain ⟨-, -, -, hsel, -⟩ := presented_zero_iff.1 h
  exact ⟨hsel, by rw [answer_eq h]; exact hack⟩

/-- The log of the controller at an edge of wb_clk. -/
theorem log_step (he : e.lines = some i) : (s.step e).sdram.log =
    if s.sdram.wbAckO (s.bus i) then (s.bus i).wb :: s.sdram.log else s.sdram.log := by
  change (s.sdram.step (s.edge e)).log = _
  rw [EndToEnd.System.step, edge_bus, he]
  rfl

theorem log_hold (he : e.lines = none) : (s.step e).sdram.log = s.sdram.log := by
  change (s.sdram.step (s.edge e)).log = _
  rw [EndToEnd.System.step, edge_bus, he]
  rfl

/-- An acknowledged request shows the expected word and enters the log. -/
theorem Acked.expected (h : Acked s i j) (hs : (machine mem).Reachable s)
    (hl : (machine mem).legal s e) (he : e.lines = some i) :
    (∀ l, laneByte (s.answer i j).dat l =
      Flat.expected (EndToEnd.lineIn mem) s.sdram.log (address (i.m j).adr) l) ∧
    (s.step e).sdram.log = (busOf (i.m j)).wb :: s.sdram.log := by
  have hi := inv_reachable hs
  obtain ⟨hp, hack⟩ := h.presented hi (hl i he)
  have hbus := bus_of_presented hi (hl i he) hp
  constructor
  · intro l
    rw [answer_eq hp, System.sdramAns, laneByte_lanes]
    have hb : (s.edge e).bus = some (s.bus i) := by rw [edge_bus, he]; rfl
    rw [EndToEnd.ack_expected hi.reachable (sdram_legal hi hl) hb hack l, hbus]
    rfl
  · rw [log_step he, if_pos hack, hbus]

/-- Nothing else enters the log. -/
theorem acked_of_log (hs : (machine mem).Reachable s) (hl : (machine mem).legal s e)
    (h : (s.step e).sdram.log ≠ s.sdram.log) : ∃ i j, e.lines = some i ∧ Acked s i j := by
  cases he : e.lines with
  | none => exact absurd (log_hold he) h
  | some i =>
    have hi := inv_reachable hs
    have hack : s.sdram.wbAckO (s.bus i) = true := by
      by_contra hn
      rw [log_step he, if_neg hn] at h
      exact h rfl
    obtain ⟨j, hp⟩ := presented_of_ack hi (hl i he) hack
    exact ⟨i, j, rfl, acked_of_presented hp hack⟩

end Answers

/-! ### Progress -/

section Progress

variable (R : (machine mem).Run)

theorem inv_run (t : ℕ) : Inv mem (R.state t) := inv_reachable (R.reachable t)

theorem sdram_next (t : ℕ) : (R.state (t + 1)).sdram =
    (R.state t).sdram.step ((R.state t).edge (R.input t)) := by
  rw [R.next]
  rfl

/-- The run of the controller. -/
def Run.sdram : (EndToEnd.machine mem).Run where
  state t := (R.state t).sdram
  input t := (R.state t).edge (R.input t)
  start := R.start.2.1
  legal t := sdram_legal (inv_run R t) (R.legal t)
  next := sdram_next R

/-- Both clocks go on, the refresh interval is never zero, and the other slaves answer. -/
structure Lively : Prop where
  wb : ∀ t, ∃ n, t ≤ n ∧ (R.input n).lines.isSome = true
  sdram : ∀ t, ∃ n, t ≤ n ∧ ((R.state n).edge (R.input n)).dq.isSome = true
  refresh : ∀ t, Crossing.refreshInterval (R.state t).sdram.cross ≠ 0
  slaves : ∀ k, k ≠ 0 → ∀ t i, (R.input t).lines = some i →
    ((R.state t).matrix.sO i k).cyc = true → ((R.state t).matrix.sO i k).stb = true →
    ∃ u i', t ≤ u ∧ (R.input u).lines = some i' ∧ ((i'.s k).ack = true ∨ (i'.s k).err = true)

/-- wb_clk rises. -/
def WbTick (t : ℕ) : Prop := (R.input t).lines.isSome = true

/-- The times of its edges. -/
noncomputable def wbTime (n : ℕ) : ℕ := Nat.nth (WbTick R) n

variable {R}

theorem wbTick_time (h : Lively R) (n : ℕ) : WbTick R (wbTime R n) :=
  Nat.nth_mem_of_infinite (infinite_of_fair h.wb) n

/-- Between the edges the matrix and the masters rest. -/
theorem hold_wb {t : ℕ} (h : ¬ WbTick R t) :
    (R.state (t + 1)).matrix = (R.state t).matrix ∧ (R.state (t + 1)).hold = (R.state t).hold := by
  have he : (R.input t).lines = none := by simpa [WbTick] using h
  rw [R.next]
  change ((R.state t).step (R.input t)).matrix = _ ∧ ((R.state t).step (R.input t)).hold = _
  simp [System.step, he]

/-- The lines of the bus at an edge. -/
noncomputable def linesAt (h : Lively R) (n : ℕ) : MatrixIn :=
  (R.input (wbTime R n)).lines.get (wbTick_time h n)

theorem lines_eq (h : Lively R) (n : ℕ) : (R.input (wbTime R n)).lines = some (linesAt h n) :=
  (Option.some_get _).symm

theorem lawful (h : Lively R) (n : ℕ) : (R.state (wbTime R n)).Lawful (linesAt h n) :=
  R.legal _ _ (lines_eq h n)

theorem state_wbTime (h : Lively R) (n : ℕ) :
    (R.state (wbTime R (n + 1))).matrix =
      (R.state (wbTime R n)).matrix.clk ((R.state (wbTime R n)).pins (linesAt h n)) ∧
    (R.state (wbTime R (n + 1))).hold = (R.state (wbTime R n)).holdNext (linesAt h n) := by
  have hlt : wbTime R n < wbTime R (n + 1) :=
    (Nat.nth_lt_nth (infinite_of_fair h.wb)).2 (Nat.lt_succ_self n)
  have hrest := hold_between (g := fun t => ((R.state t).matrix, (R.state t).hold))
    (fun t ht => Prod.ext (hold_wb ht).1 (hold_wb ht).2) hlt le_rfl
  rw [Prod.ext_iff] at hrest
  have hnext := R.next (wbTime R n)
  change R.state (wbTime R n + 1) = (R.state (wbTime R n)).step (R.input (wbTime R n)) at hnext
  constructor
  · refine hrest.1.trans ?_
    change (R.state (wbTime R n + 1)).matrix = _
    rw [hnext, System.step, lines_eq h n]
    rfl
  · refine hrest.2.trans ?_
    change (R.state (wbTime R n + 1)).hold = _
    rw [hnext, System.step, lines_eq h n]
    rfl

theorem matrix_start : (R.state (wbTime R 0)).matrix = Matrix.reset := by
  have h0 := hold_before (g := fun t => (R.state t).matrix) (fun t ht => (hold_wb ht).1)
    (le_refl (Nat.nth (WbTick R) 0))
  exact h0.trans R.start.1

/-- The run of the matrix: the edges of wb_clk. -/
noncomputable def Run.matrix (h : Lively R) : Matrix.machine.Run where
  state n := (R.state (wbTime R n)).matrix
  input n := (R.state (wbTime R n)).pins (linesAt h n)
  start := matrix_start
  legal n := matrix_legal (inv_run R _) (lawful h n)
  next n := (state_wbTime h n).1

theorem equalPriorities (h : Lively R) : Routing.EqualPriorities (Run.matrix h) :=
  fun n k => (lawful h n).conf k

theorem mastersWait (h : Lively R) : Routing.MastersWait (Run.matrix h) := by
  intro j n hreq
  have hlaw := lawful h (n + 1)
  have hold : (R.state (wbTime R (n + 1))).hold j = _ :=
    (congrFun (state_wbTime h n).2 j).trans (holdNext_request hreq.1 hreq.2)
  constructor
  · intro hn
    rw [if_neg] at hold
    · exact hlaw.waits j _ hold
    · rw [Bool.or_eq_true]
      exact hn
  · intro ha
    rw [if_pos] at hold
    · exact hlaw.drops j hold
    · rw [Bool.or_eq_true]
      exact ha

/-- The log of the controller changes only with an acknowledge. -/
theorem ack_between {t n : ℕ} (htn : t ≤ n)
    (hne : (R.state n).sdram.log ≠ (R.state t).sdram.log) :
    ∃ u i j, t ≤ u ∧ (R.input u).lines = some i ∧ Acked (R.state u) i j := by
  induction n, htn using Nat.le_induction with
  | base => exact absurd rfl hne
  | succ n htn ih =>
    by_cases h : (R.state n).sdram.log = (R.state t).sdram.log
    · have hstep : ((R.state n).step (R.input n)).sdram.log ≠ (R.state n).sdram.log := by
        rw [h]
        intro heq
        refine hne (Eq.trans ?_ heq)
        rw [R.next]
        rfl
      obtain ⟨i, j, hi, hack⟩ := acked_of_log (R.reachable n) (R.legal n) hstep
      exact ⟨n, i, j, htn, hi, hack⟩
    · exact ih h

theorem Run.lively (h : Lively R) : EndToEnd.Lively (Run.sdram R) where
  sys t := by
    obtain ⟨n, hn, hs⟩ := h.wb t
    refine ⟨n, hn, ?_⟩
    change ((R.state n).edge (R.input n)).bus.isSome = true
    rw [edge_bus, Option.isSome_map]
    exact hs
  sdram := h.sdram
  refresh := h.refresh

/-- All slaves answer, the SDRAM on its own account. -/
theorem responsive (h : Lively R) : Routing.Responsive (Run.matrix h) := by
  intro k n hc hs
  -- an answer at a later edge of wb_clk
  suffices hu : ∃ u i, wbTime R n ≤ u ∧ (R.input u).lines = some i ∧
      ((((R.state u).pins i).s k).ack = true ∨ (((R.state u).pins i).s k).err = true) by
    obtain ⟨u, i, hle, hi, ha⟩ := hu
    obtain ⟨m, hm, rfl⟩ := nth_of_tick h.wb (by rw [hi]; rfl) hle
    have hlines : i = linesAt h m := Option.some.inj (hi.symm.trans (lines_eq h m))
    subst hlines
    exact ⟨m, hm, ha⟩
  by_cases h0 : k = 0
  · subst h0
    have hb : ((R.state (wbTime R n)).edge (R.input (wbTime R n))).bus =
        some ((R.state (wbTime R n)).bus (linesAt h n)) := by
      rw [edge_bus, lines_eq h n]
      rfl
    obtain ⟨v, hv, hlog⟩ := EndToEnd.Run.answered (Run.lively h) hb
      (by rw [Bool.and_eq_true]; exact ⟨hc, hs⟩)
    obtain ⟨u, i, j, hle, hi, hack⟩ := ack_between hv.le fun heq => by
      have hlen := congrArg List.length (heq.symm.trans hlog)
      simp [Run.sdram] at hlen
    refine ⟨u, i, hle, hi, .inl ?_⟩
    exact (hack.presented (inv_run R u) (R.legal u i hi)).2
  · obtain ⟨u, i, hle, hi, ha⟩ := h.slaves k h0 _ _ (lines_eq h n) hc hs
    refine ⟨u, i, hle, hi, ?_⟩
    simpa only [System.pins, h0, if_false] using ha

/-- A request to the SDRAM is acknowledged. -/
theorem request_acked (h : Lively R) {t : ℕ} {i : MatrixIn} (hi : (R.input t).lines = some i)
    {j : Master} (hc : (i.m j).cyc = true) (hs : (i.m j).stb = true)
    (hsel : slvSel (i.m j).adr = 0) :
    ∃ u i', t ≤ u ∧ (R.input u).lines = some i' ∧ i'.m j = i.m j ∧ Acked (R.state u) i' j := by
  obtain ⟨n, -, rfl⟩ := nth_of_tick (n := 0) h.wb (u := t) (by rw [hi]; rfl) (by
    rw [Nat.nth_zero]
    exact Nat.sInf_le (by rw [Set.mem_ofPred, hi]; rfl))
  have hlines : i = linesAt h n := Option.some.inj (hi.symm.trans (lines_eq h n))
  subst hlines
  have hreq : Routing.Requests (Run.matrix h) j n := ⟨hc, hs⟩
  obtain ⟨b, hnb, hans, hfirst⟩ :=
    first_time (hreq.answered (equalPriorities h) (mastersWait h) (responsive h))
  have hheld := (hreq.held (mastersWait h) hnb hfirst).1
  have hm : (linesAt h b).m j = (linesAt h n).m j := hheld
  have hp : (R.state (wbTime R b)).matrix.Presented (linesAt h b) (.slave 0) j := by
    have htgt : target ((linesAt h b).m j).adr = .slave 0 := by
      rw [hm, target, hsel]
      rfl
    have := Routing.presented_of_answered hans
    rwa [show target (Routing.req (Run.matrix h) j b).adr = .slave 0 from htgt] at this
  refine ⟨wbTime R b, linesAt h b, (Nat.nth_le_nth (infinite_of_fair h.wb)).2 hnb, lines_eq h b,
    hm, acked_of_presented hp ?_⟩
  have hans : ((R.state (wbTime R b)).answer (linesAt h b) j).ack = true ∨
      ((R.state (wbTime R b)).answer (linesAt h b) j).err = true := hans
  rw [answer_eq hp] at hans
  rcases hans with ha | he
  · exact ha
  · cases he

end Progress

/-- The masters of the bus share one memory. The acknowledged requests to the SDRAM, of all masters
    and in the order of their acknowledges, are the history of a flat memory: an acknowledge that a
    master sees at such an address shows, in each byte lane, the byte of the latest write in that
    history or the one from power-up, and puts the request of this master at its end, and no other
    master sees one at the same time; nothing else enters the history; and if the clocks go on and
    the other slaves answer, every request to the SDRAM is acknowledged, whatever the other masters
    do. -/
theorem masters_share_memory (R : (machine mem).Run) :
    (∀ t i j, (R.input t).lines = some i → Acked (R.state t) i j →
      (∀ l, laneByte ((R.state t).answer i j).dat l =
        Flat.expected (EndToEnd.lineIn mem) (R.state t).sdram.log (address (i.m j).adr) l) ∧
      (R.state (t + 1)).sdram.log = (busOf (i.m j)).wb :: (R.state t).sdram.log ∧
      ∀ j', Acked (R.state t) i j' → j' = j) ∧
    (∀ t, (R.state (t + 1)).sdram.log ≠ (R.state t).sdram.log →
      ∃ i j, (R.input t).lines = some i ∧ Acked (R.state t) i j) ∧
    (Lively R → ∀ t i j, (R.input t).lines = some i → (i.m j).cyc = true → (i.m j).stb = true →
      slvSel (i.m j).adr = 0 →
      ∃ u i', t ≤ u ∧ (R.input u).lines = some i' ∧ i'.m j = i.m j ∧ Acked (R.state u) i' j) := by
  refine ⟨fun t i j hi ha => ?_, fun t hne => ?_, fun h t i j hi hc hs hsel => ?_⟩
  · obtain ⟨hdat, hlog⟩ := ha.expected (R.reachable t) (R.legal t) hi
    refine ⟨hdat, ?_, fun j' ha' => ?_⟩
    · rw [R.next]
      exact hlog
    · have hlaw := R.legal t i hi
      obtain ⟨ho, -⟩ := presented_zero_iff.1 (ha.presented (inv_run R t) hlaw).1
      obtain ⟨ho', -⟩ := presented_zero_iff.1 (ha'.presented (inv_run R t) hlaw).1
      exact ho'.symm.trans ho
  · refine acked_of_log (R.reachable t) (R.legal t) ?_
    rwa [R.next] at hne
  · exact request_acked h hi hc hs hsel

/-- The lines of a master that reads address 0 over and over. -/
def demand : Hold → WbReq
  | .free => { cyc := true, stb := true, adr := 0, dat := 0, sel := 15, we := false }
  | .waits q => q
  | .drops => { cyc := false, stb := false, adr := 0, dat := 0, sel := 15, we := false }

/-- The lines with eight such masters and silent slaves. -/
def demands (s : System) : MatrixIn where
  m j := demand (s.hold j)
  s _ := { ack := false, err := false, rty := false, dat := 0 }

/-- The two clocks in turn. -/
def readTick (s : System) (t : ℕ) : Tick := if t % 2 = 0 then .wb (demands s) else .sdram 0

/-- Out of reset, with a chip of zeros. -/
def atReset : System where
  matrix := Matrix.reset
  sdram := EndToEnd.atReset
  hold _ := .free

theorem lines_readTick {s : System} {t : ℕ} {i : MatrixIn} (h : (readTick s t).lines = some i) :
    i = demands s := by
  rw [readTick] at h
  split at h <;> cases h
  rfl

def readState : ℕ → System
  | 0 => atReset
  | t + 1 => (readState t).step (readTick (readState t) t)

/-- What the readers leave alone: the registers of the matrix and of the controller. -/
structure Reads (s : System) : Prop where
  adr : ∀ j q, s.hold j = .waits q → q.adr = 0
  rf : s.matrix.rf.rfWe = false ∧ ∀ k, s.matrix.rf.conf k = 0
  cfg1 : s.sdram.cross.cfg1 = 0x012C0952

theorem Reads.demands_adr {s : System} (h : Reads s) (j : Master) : ((demands s).m j).adr = 0 := by
  change (demand (s.hold j)).adr = 0
  cases hj : s.hold j with
  | free => rfl
  | waits q => exact h.adr j q hj
  | drops => rfl

theorem Reads.not_drives {s : System} (h : Reads s) {k : Slave} (hk : k ≠ 0) :
    ¬ s.matrix.Drives (demands s) k := by
  intro hd
  have hsel := (Matrix.drives_iff.1 hd).2.2.1
  rw [h.demands_adr] at hsel
  exact hk hsel.symm

theorem Reads.not_cfgWrite {s : System} (h : Reads s) {a : BitVec 28} (ha : a ≠ 0) :
    Crossing.System.cfgWrite (s.bus (demands s)) a = false := by
  have hadr : (s.bus (demands s)).wb.adr = 0 := h.demands_adr _
  rw [Crossing.System.cfgWrite, hadr, decide_eq_false fun h0 => ha h0.symm]
  simp

theorem Reads.step {s : System} (h : Reads s) (t : ℕ) : Reads (s.step (readTick s t)) := by
  rw [readTick]
  split
  · have hsel : s.matrix.rfSel (s.pins (demands s)) = false := by
      rw [← Bool.not_eq_true, Matrix.rfSel_iff]
      exact fun hr => h.not_drives (by decide) hr.1
    refine ⟨fun j q hq => ?_, ⟨?_, fun k => ?_⟩, ?_⟩
    · change s.holdNext (demands s) j = .waits q at hq
      rw [System.holdNext] at hq
      split_ifs at hq
      cases hq
      exact h.demands_adr j
    · change (s.matrix.rfSel (s.pins (demands s)) && _ && _) = false
      rw [hsel]
      rfl
    · change (if s.matrix.rf.rfWe && _ then _ else s.matrix.rf.conf k) = 0
      rw [h.rf.1]
      exact h.rf.2 k
    · change (if Crossing.System.cfgWrite (s.bus (demands s)) 0xC000004 then _
        else s.sdram.cross.cfg1) = _
      rw [h.not_cfgWrite (by decide)]
      exact h.cfg1
  · exact ⟨h.adr, h.rf, h.cfg1⟩

theorem reads_readState (t : ℕ) : Reads (readState t) := by
  induction t with
  | zero =>
    refine ⟨fun j q hq => ?_, ⟨rfl, fun _ => rfl⟩, rfl⟩
    cases hq
  | succ t ih => exact ih.step t

theorem readState_legal (t : ℕ) :
    (machine fun _ _ _ => 0).legal (readState t) (readTick (readState t) t) := by
  intro i hi
  obtain rfl := lines_readTick hi
  have hr := reads_readState t
  refine ⟨fun j q hq => ?_, fun j hj => ?_, fun k _ ha => ?_, hr.rf.2, fun hw => ?_⟩
  · change demand ((readState t).hold j) = q
    rw [hq, demand]
  · change (demand ((readState t).hold j)).cyc = false ∧ (demand ((readState t).hold j)).stb = false
    rw [hj]
    exact ⟨rfl, rfl⟩
  · rcases ha with ha | ha <;> cases ha
  · rw [hr.not_cfgWrite (by decide)] at hw
    cases hw

theorem readState_start : (machine fun _ _ _ => 0).start atReset :=
  ⟨rfl, EndToEnd.atReset_start, fun _ => rfl⟩

/-- The run of the readers. -/
def readRun : (machine fun _ _ _ => 0).Run where
  state := readState
  input t := readTick (readState t) t
  start := readState_start
  legal := readState_legal
  next _ := rfl

theorem readRun_lively : Lively readRun where
  wb t := ⟨2 * t, by omega, by simp [readRun, readTick, Tick.lines]⟩
  sdram t := ⟨2 * t + 1, by omega, by
    simp [readRun, readTick, System.edge, Crossing.Edge.dq, Nat.add_mod]⟩
  refresh t := by
    have hcfg : (readRun.state t).sdram.cross.cfg1 = 0x012C0952 := (reads_readState t).cfg1
    rw [Crossing.refreshInterval, hcfg]
    decide
  slaves k hk t i hi hc hs := by
    obtain rfl := lines_readTick hi
    exact absurd ((Matrix.sO_driven k).1 ⟨hc, hs⟩).1 ((reads_readState t).not_drives hk)

theorem masters_share_memory_read : ∃ u i, (readRun.input u).lines = some i ∧
    (i.m 7).adr = 0 ∧ Acked (readRun.state u) i 7 := by
  obtain ⟨u, i, -, hi, hm, ha⟩ := (masters_share_memory readRun).2.2 readRun_lively 0
    (demands atReset) 7 rfl rfl rfl rfl
  exact ⟨u, i, hi, by rw [hm]; rfl, ha⟩

end DsdOrsoc.Top.SharedMemory
