import DsdOrsoc.Schemes.Machine
import DsdOrsoc.Schemes.Progress
import DsdOrsoc.Schemes.Ring

/-! The FIFOs of the UART: `uart_tfifo` with bytes, `uart_rfifo` with bytes and three error flags
    for each. Both have the same pointers and counter over a byte RAM `raminfr` with registered
    write and asynchronous read:

        {push, pop}      10              01              11
        pointers         if count < 16   if count > 0    always, count stays
        byte RAM         written         -               written
        flags (rfifo)    if count < 16   if count > 0    written

    The last column does not look at `count`, and the RAM does not look at it in the first: a push
    with a pop on an empty FIFO loses the item, and a push on a full one overwrites the oldest
    byte. -/

namespace DsdOrsoc.Uart
open Schemes

/-! ### Pointers -/

/-- The pointers and the counter that the two FIFOs share. -/
structure FifoPtrs where
  top : BitVec 4
  bottom : BitVec 4
  count : BitVec 5

/-- The strobes and the item of one cycle. -/
structure FifoIn (δ : Type) where
  push : Bool
  pop : Bool
  fifoReset : Bool
  resetStatus : Bool
  dataIn : δ

variable {δ : Type}

def FifoPtrs.clk (p : FifoPtrs) (i : FifoIn δ) : FifoPtrs :=
  if i.fifoReset then ⟨0, 0, 0⟩
  else match i.push, i.pop with
    | true, false => if p.count < 16 then { p with top := p.top + 1, count := p.count + 1 } else p
    | false, true =>
      if 0 < p.count then { p with bottom := p.bottom + 1, count := p.count - 1 } else p
    | true, true => { p with top := p.top + 1, bottom := p.bottom + 1 }
    | false, false => p

/-- The abstract queue after a cycle. -/
def queueNext (q : List δ) (i : FifoIn δ) : List δ :=
  if i.fifoReset then [] else Queue.next 16 q i.push i.pop i.dataIn

/-- The pointers of a queue with `n` items. -/
structure FifoPtrs.Rep (p : FifoPtrs) (n : ℕ) : Prop where
  count : p.count.toNat = n
  top : p.top = Ring.slot p.bottom n
  le : n ≤ 16

theorem FifoPtrs.rep_zero : FifoPtrs.Rep ⟨0, 0, 0⟩ 0 := ⟨rfl, by simp, by omega⟩

theorem FifoPtrs.Rep.count_eq_zero {p : FifoPtrs} {q : List δ} (h : p.Rep q.length) :
    p.count = 0 ↔ q = [] := by
  rw [← List.length_eq_zero_iff, ← h.count]
  exact ⟨fun h0 => by rw [h0]; rfl, fun h0 => BitVec.eq_of_toNat_eq h0⟩

theorem FifoPtrs.Rep.count_eq_full {p : FifoPtrs} {n : ℕ} (h : p.Rep n) :
    p.count = 16 ↔ n = 16 := by
  rw [← h.count]
  exact ⟨fun h0 => by rw [h0]; rfl, fun h0 => BitVec.eq_of_toNat_eq h0⟩

theorem FifoPtrs.Rep.clk {p : FifoPtrs} {q : List δ} (h : p.Rep q.length) {i : FifoIn δ}
    (hempty : i.fifoReset = false → i.push = true → i.pop = true → q ≠ []) :
    (p.clk i).Rep (queueNext q i).length := by
  unfold FifoPtrs.clk queueNext
  split
  · exact FifoPtrs.rep_zero
  · next hr =>
    have hlt : p.count < 16 ↔ q.length < 16 := by rw [← h.count, BitVec.lt_def]; rfl
    have hpos : 0 < p.count ↔ 0 < q.length := by rw [← h.count, BitVec.lt_def]; rfl
    cases hpush : i.push <;> cases hpop : i.pop <;> simp only [Queue.next]
    · exact h
    · simp only [hpos, List.length_tail]
      split
      · next h0 =>
        refine ⟨?_, ?_, by have := h.le; omega⟩
        · rw [BitVec.toNat_sub_of_le (by rw [BitVec.le_def, h.count]; exact h0), h.count]
          rfl
        · rw [h.top, Ring.slot_succ]
          congr 1
          omega
      · next h0 =>
        obtain h0' : q.length = 0 := by omega
        rw [h0'] at h ⊢
        exact h
    · simp only [hlt]
      split
      · next h16 =>
        rw [List.length_append, List.length_singleton]
        refine ⟨?_, ?_, by omega⟩
        · rw [BitVec.toNat_add, h.count]
          exact Nat.mod_eq_of_lt (by simp; omega)
        · rw [h.top, Ring.slot_add_one]
      · exact h
    · have h0 : 0 < q.length :=
        List.length_pos_iff.2 (hempty (by simpa using hr) hpush hpop)
      rw [List.length_append, List.length_tail, List.length_singleton, Nat.sub_add_cancel h0]
      refine ⟨h.count, ?_, h.le⟩
      rw [h.top, Ring.slot_add_one, Ring.slot_succ]

/-- The read pointer moves with the queue. -/
theorem FifoPtrs.Rep.bottom_clk {p : FifoPtrs} {q : List δ} (h : p.Rep q.length) {i : FifoIn δ}
    (hr : i.fifoReset = false) (hempty : i.push = true → i.pop = true → q ≠ []) :
    (p.clk i).bottom = if i.pop = true ∧ q ≠ [] then p.bottom + 1 else p.bottom := by
  have hpos : 0 < p.count ↔ q ≠ [] := by
    rw [← List.length_pos_iff, ← h.count, BitVec.lt_def]
    rfl
  unfold FifoPtrs.clk
  rw [hr, if_neg Bool.false_ne_true]
  cases hpush : i.push <;> cases hpop : i.pop
  · simp
  · simp only [hpos, true_and]
    split <;> rfl
  · simp only [Bool.false_eq_true, false_and, if_false]
    split <;> rfl
  · simp [hempty hpush hpop]

/-! ### Queues over a run -/

/-- The abstract queue before cycle `t`. -/
def queue (input : ℕ → FifoIn δ) : ℕ → List δ
  | 0 => []
  | t + 1 => queueNext (queue input t) (input t)

/-- What a FIFO shows is what the queue shows: its length, and its first item if there is one. -/
def Shows (count : BitVec 5) (dataOut : δ) (q : List δ) : Prop :=
  count.toNat = q.length ∧ ∀ x, q.head? = some x → dataOut = x

/-- A cycle without the two flaws: nothing is pushed and popped at once while the FIFO is empty, and
    nothing is pushed without a pop while it is full, unless its byte `new` is the oldest byte `old`
    itself. -/
def Keeps {β : Type} (count : BitVec 5) (i : FifoIn δ) (new old : β) : Prop :=
  i.fifoReset = true ∨
    (¬ (i.push = true ∧ i.pop = true ∧ count = 0) ∧
      ¬ (i.push = true ∧ i.pop = false ∧ count = 16 ∧ new ≠ old))

section Keeps

variable {β : Type} {p : FifoPtrs} {q : List δ} {i : FifoIn δ} {new old : β}

theorem Keeps.empty (hk : Keeps p.count i new old) (h : p.Rep q.length)
    (hr : i.fifoReset = false) (hpush : i.push = true) (hpop : i.pop = true) : q ≠ [] := by
  intro hq
  rcases hk with hk | hk
  · exact Bool.false_ne_true (hr.symm.trans hk)
  · exact hk.1 ⟨hpush, hpop, h.count_eq_zero.2 hq⟩

theorem Keeps.full (hk : Keeps p.count i new old) (h : p.Rep q.length)
    (hr : i.fifoReset = false) (hpush : i.push = true) (hpop : i.pop = false)
    (hlen : q.length = 2 ^ 4) : new = old := by
  rcases hk with hk | hk
  · exact absurd (hr.symm.trans hk) Bool.false_ne_true
  · by_contra hne
    exact hk.2 ⟨hpush, hpop, h.count_eq_full.2 hlen, hne⟩

theorem cases_of_not_keeps (hk : ¬ Keeps p.count i new old) :
    i.fifoReset = false ∧ ((i.push = true ∧ i.pop = true ∧ p.count = 0) ∨
      (i.push = true ∧ i.pop = false ∧ p.count = 16 ∧ new ≠ old)) := by
  rwa [Keeps, not_or, not_and_or, not_not, not_not, Bool.not_eq_true] at hk

/-- A push with a pop on an empty FIFO: the counter misses the item. -/
theorem lost_count (h : p.Rep q.length) (hr : i.fifoReset = false)
    (hlost : i.push = true ∧ i.pop = true ∧ p.count = 0) :
    (p.clk i).count.toNat ≠ (queueNext q i).length := by
  obtain ⟨hpush, hpop, h0⟩ := hlost
  obtain rfl := h.count_eq_zero.1 h0
  simp [FifoPtrs.clk, queueNext, Queue.next, hr, hpush, hpop, h0]

/-- A push on a full FIFO: pointers and queue stay, and the RAM is written at the oldest item. -/
theorem overwritten {y : δ} (h : p.Rep (y :: q).length) (hr : i.fifoReset = false)
    (hpush : i.push = true) (hpop : i.pop = false) (h16 : p.count = 16) :
    p.clk i = p ∧ queueNext (y :: q) i = y :: q ∧ p.top = p.bottom := by
  have hlen := h.count_eq_full.1 h16
  refine ⟨by simp [FifoPtrs.clk, hr, hpush, hpop, h16], ?_, ?_⟩
  · rw [queueNext, hr, hpush, hpop, if_neg Bool.false_ne_true]
    simp [Queue.next, hlen]
  · rw [h.top, hlen]
    exact Ring.slot_full _

/-- Without a pop on empty and a push on full a FIFO keeps its items. -/
theorem keeps_of_legal (hpush : i.push = true → p.count ≠ 16) (hpop : i.pop = true → p.count ≠ 0)
    (new old : β) : Keeps p.count i new old :=
  .inr ⟨fun h => hpop h.2.1 h.2.2, fun h => hpush h.1 h.2.2.1⟩

theorem queueNext_of_legal (h : p.Rep q.length) (hr : i.fifoReset = false)
    (hpush : i.push = true → p.count ≠ 16) :
    queueNext q i = (if i.pop then q.tail else q) ++ (if i.push then [i.dataIn] else []) := by
  rw [queueNext, hr, if_neg Bool.false_ne_true]
  cases hpush' : i.push <;> cases hpop' : i.pop <;> simp only [Queue.next]
  · simp
  · simp
  · have := h.le
    have hne : q.length ≠ 16 := fun h16 => hpush hpush' (h.count_eq_full.2 h16)
    rw [if_pos (by omega)]
    simp
  · simp

end Keeps

/-! ### The transmit FIFO -/

structure Tfifo where
  ptrs : FifoPtrs
  ram : BitVec 4 → BitVec 8
  overrun : Bool

namespace Tfifo

variable (s : Tfifo) (i : FifoIn (BitVec 8))

def dataOut : BitVec 8 := s.ram s.ptrs.bottom

/-- One rising edge of the clock. -/
def clk : Tfifo where
  ptrs := s.ptrs.clk i
  ram := if i.push then Function.update s.ram s.ptrs.top i.dataIn else s.ram
  overrun :=
    if i.fifoReset || i.resetStatus then false
    else if i.push && decide (s.ptrs.count = 16) then true else s.overrun

/-- The FIFO after reset, with any RAM contents. -/
def machine : Machine Tfifo (FifoIn (BitVec 8)) where
  start s := s.ptrs = ⟨0, 0, 0⟩ ∧ s.overrun = false
  legal _ _ := True
  step := clk

/-- The FIFO holds the items of the queue. -/
def Rep (q : List (BitVec 8)) : Prop := s.ptrs.Rep q.length ∧ Ring.Holds s.ram s.ptrs.bottom q

variable {s i} {q : List (BitVec 8)}

theorem Rep.head (h : s.Rep q) {x : BitVec 8} (hx : q.head? = some x) : s.dataOut = x := by
  cases q with
  | nil => cases hx
  | cons y q =>
    obtain rfl : y = x := by simpa using hx
    exact h.2.head

theorem Rep.clk (h : s.Rep q) (hk : Keeps s.ptrs.count i i.dataIn s.dataOut) :
    (s.clk i).Rep (queueNext q i) := by
  refine ⟨h.1.clk (hk.empty h.1), ?_⟩
  cases hr : i.fifoReset with
  | true =>
    rw [queueNext, hr, if_pos rfl]
    exact Ring.holds_nil
  | false =>
    have hfull : i.push = true → i.pop = false → q.length = 2 ^ 4 → q.head? = some i.dataIn := by
      intro hpush hpop hlen
      cases q with
      | nil => cases hlen
      | cons y q => rw [hk.full h.1 hr hpush hpop hlen, h.head rfl]; rfl
    have := h.2.next h.1.le (x := i.dataIn) (hk.empty h.1 hr) hfull
    rw [queueNext, hr, if_neg Bool.false_ne_true]
    change Ring.Holds _ (s.ptrs.clk i).bottom _
    rwa [h.1.bottom_clk hr (hk.empty h.1 hr), Tfifo.clk, h.1.top]

/-- A flaw shows at once. -/
theorem Rep.not_shows (h : s.Rep q) (hk : ¬ Keeps s.ptrs.count i i.dataIn s.dataOut) :
    ¬ Shows (s.clk i).ptrs.count (s.clk i).dataOut (queueNext q i) := by
  intro hshow
  obtain ⟨hr, hlost | ⟨hpush, hpop, h16, hne⟩⟩ := cases_of_not_keeps hk
  · exact lost_count h.1 hr hlost hshow.1
  · cases q with
    | nil => cases h.1.count_eq_full.1 h16
    | cons y q =>
      obtain ⟨hptrs, hqueue, htop⟩ := overwritten h.1 hr hpush hpop h16
      have hnew : (s.clk i).dataOut = i.dataIn := by
        simp [dataOut, Tfifo.clk, hptrs, hpush, htop]
      have hold : (s.clk i).dataOut = y := hshow.2 y (by rw [hqueue]; rfl)
      exact hne (hnew.symm.trans (hold.trans (h.head rfl).symm))

end Tfifo

/-! ### The receive FIFO -/

/-- An item of the receive FIFO: a byte and three flags. -/
abbrev RecWord := BitVec 11

def RecWord.byte (x : RecWord) : BitVec 8 := x.extractLsb' 3 8

def RecWord.flags (x : RecWord) : BitVec 3 := x.extractLsb' 0 3

theorem RecWord.byte_append_flags (x : RecWord) : x.byte ++ x.flags = x := by
  apply BitVec.eq_of_getLsbD_eq
  intro n hn
  simp only [RecWord.byte, RecWord.flags, BitVec.getLsbD_append, BitVec.getLsbD_extractLsb']
  grind

theorem RecWord.byte_append (a : BitVec 8) (b : BitVec 3) : RecWord.byte (a ++ b) = a := by
  apply BitVec.eq_of_getLsbD_eq
  intro n hn
  simp only [RecWord.byte, BitVec.getLsbD_append, BitVec.getLsbD_extractLsb']
  grind

structure Rfifo where
  ptrs : FifoPtrs
  ram : BitVec 4 → BitVec 8
  fifo : BitVec 4 → BitVec 3
  overrun : Bool

namespace Rfifo

variable (s : Rfifo) (i : FifoIn RecWord)

def dataOut : RecWord := s.ram s.ptrs.bottom ++ s.fifo s.ptrs.bottom

/-- The items in the FIFO, oldest first. -/
def contents : List RecWord :=
  (List.range s.ptrs.count.toNat).map fun k =>
    s.ram (Ring.slot s.ptrs.bottom k) ++ s.fifo (Ring.slot s.ptrs.bottom k)

/-- `error_bit`. -/
def errorBit : Bool := decide (∃ n, s.fifo n ≠ 0)

/-- The flags, which are guarded like the pointers and cleared by a pop. -/
def fifoNext : BitVec 4 → BitVec 3 :=
  if i.fifoReset then fun _ => 0
  else match i.push, i.pop with
    | true, false =>
      if s.ptrs.count < 16 then Function.update s.fifo s.ptrs.top i.dataIn.flags else s.fifo
    | false, true =>
      if 0 < s.ptrs.count then Function.update s.fifo s.ptrs.bottom 0 else s.fifo
    | true, true => Function.update s.fifo s.ptrs.top i.dataIn.flags
    | false, false => s.fifo

/-- One rising edge of the clock. -/
def clk : Rfifo where
  ptrs := s.ptrs.clk i
  ram := if i.push then Function.update s.ram s.ptrs.top i.dataIn.byte else s.ram
  fifo := s.fifoNext i
  overrun :=
    if i.fifoReset || i.resetStatus then false
    else if i.push && !i.pop && decide (s.ptrs.count = 16) then true else s.overrun

/-- The FIFO after reset, with any RAM contents. -/
def machine : Machine Rfifo (FifoIn RecWord) where
  start s := s.ptrs = ⟨0, 0, 0⟩ ∧ s.fifo = (fun _ => 0) ∧ s.overrun = false
  legal _ _ := True
  step := clk

/-- The FIFO holds the items of the queue. -/
structure Rep (s : Rfifo) (q : List RecWord) : Prop where
  ptrs : s.ptrs.Rep q.length
  bytes : Ring.Holds s.ram s.ptrs.bottom (q.map RecWord.byte)
  flags : Ring.Holds s.fifo s.ptrs.bottom (q.map RecWord.flags)

variable {s i} {q : List RecWord}

theorem Rep.head (h : s.Rep q) {x : RecWord} (hx : q.head? = some x) : s.dataOut = x := by
  cases q with
  | nil => cases hx
  | cons y q =>
    obtain rfl : y = x := by simpa using hx
    have hb := h.bytes.head
    have hf := h.flags.head
    rw [dataOut, hb, hf]
    exact y.byte_append_flags

theorem Rep.contents_eq (h : s.Rep q) : s.contents = q := by
  apply List.ext_getElem
  · simp [contents, h.ptrs.count]
  · intro k _ hk
    have hb := h.bytes k q[k].byte (by simp [hk])
    have hf := h.flags k q[k].flags (by simp [hk])
    simp only [contents, List.getElem_map, List.getElem_range, hb, hf]
    exact q[k].byte_append_flags

theorem Rep.clk_bytes (h : s.Rep q) (hr : i.fifoReset = false)
    (hk : Keeps s.ptrs.count i i.dataIn.byte s.dataOut.byte) :
    Ring.Holds (s.clk i).ram (s.clk i).ptrs.bottom ((queueNext q i).map RecWord.byte) := by
  have hempty : i.push = true → i.pop = true → q.map RecWord.byte ≠ [] := by
    intro hpush hpop
    simpa using hk.empty h.ptrs hr hpush hpop
  have hfull : i.push = true → i.pop = false → (q.map RecWord.byte).length = 2 ^ 4 →
      (q.map RecWord.byte).head? = some i.dataIn.byte := by
    intro hpush hpop hlen
    rw [List.length_map] at hlen
    cases q with
    | nil => cases hlen
    | cons y q => rw [hk.full h.ptrs hr hpush hpop hlen, h.head rfl]; rfl
  have := h.bytes.next (by simpa using h.ptrs.le) hempty hfull
  rw [queueNext, hr, if_neg Bool.false_ne_true, Queue.map_next]
  change Ring.Holds _ (s.ptrs.clk i).bottom _
  rw [h.ptrs.bottom_clk hr (hk.empty h.ptrs hr), Rfifo.clk, h.ptrs.top]
  simpa using this

/-- The flags follow the queue whatever is pushed: they are guarded. -/
theorem clk_flags (hp : s.ptrs.Rep q.length)
    (hf : Ring.Holds s.fifo s.ptrs.bottom (q.map RecWord.flags)) (hr : i.fifoReset = false)
    (hempty : i.push = true → i.pop = true → q ≠ []) :
    Ring.Holds (s.clk i).fifo (s.clk i).ptrs.bottom ((queueNext q i).map RecWord.flags) := by
  have hlt : s.ptrs.count < 16 ↔ q.length < 16 := by rw [← hp.count, BitVec.lt_def]; rfl
  have hlen := hp.le
  have hmap : (q.map RecWord.flags).length = q.length := List.length_map _
  rw [queueNext, hr, if_neg Bool.false_ne_true, Queue.map_next]
  change Ring.Holds (s.fifoNext i) (s.ptrs.clk i).bottom _
  rw [hp.bottom_clk hr hempty]
  unfold fifoNext
  rw [hr, if_neg Bool.false_ne_true]
  cases hpush : i.push <;> cases hpop : i.pop
  · simpa [Queue.next] using hf
  · cases q with
    | nil => simpa [Queue.next] using Ring.holds_nil
    | cons y q =>
      have hpos : 0#5 < s.ptrs.count := by
        rw [BitVec.lt_def, hp.count]
        simp
      have hb : s.ptrs.bottom = Ring.slot (s.ptrs.bottom + 1) 15 := by
        rw [Ring.slot_succ]
        exact (Ring.slot_full (w := 4) _).symm
      have := hf.tail.write (k := 15) (by simpa [Nat.lt_succ_iff] using hlen) (by decide) 0
      rw [← hb] at this
      simpa [Queue.next, hpos] using this
  · simp only [Queue.next, hmap, hlt, Bool.false_eq_true, false_and, if_false]
    split
    · next h16 =>
      have := hf.append (by rwa [hmap]) i.dataIn.flags
      rwa [hmap, ← hp.top] at this
    · exact hf
  · cases q with
    | nil => exact absurd rfl (hempty hpush hpop)
    | cons y q =>
      have := hf.tail.append (by simpa using hlen) i.dataIn.flags
      rw [List.map_cons, List.tail_cons, List.length_map, Ring.slot_succ,
        ← List.length_cons (a := y), ← hp.top] at this
      simpa [Queue.next] using this

theorem Rep.clk (h : s.Rep q) (hk : Keeps s.ptrs.count i i.dataIn.byte s.dataOut.byte) :
    (s.clk i).Rep (queueNext q i) := by
  cases hr : i.fifoReset with
  | true =>
    refine ⟨h.ptrs.clk (hk.empty h.ptrs), ?_, ?_⟩ <;> rw [queueNext, hr, if_pos rfl] <;>
      exact Ring.holds_nil
  | false =>
    exact ⟨h.ptrs.clk (hk.empty h.ptrs), h.clk_bytes hr hk,
      clk_flags h.ptrs h.flags hr (hk.empty h.ptrs hr)⟩

/-- A flaw shows at once. -/
theorem Rep.not_shows (h : s.Rep q) (hk : ¬ Keeps s.ptrs.count i i.dataIn.byte s.dataOut.byte) :
    ¬ Shows (s.clk i).ptrs.count (s.clk i).dataOut (queueNext q i) := by
  intro hshow
  obtain ⟨hr, hlost | ⟨hpush, hpop, h16, hne⟩⟩ := cases_of_not_keeps hk
  · exact lost_count h.ptrs hr hlost hshow.1
  · cases q with
    | nil => cases h.ptrs.count_eq_full.1 h16
    | cons y q =>
      obtain ⟨hptrs, hqueue, htop⟩ := overwritten h.ptrs hr hpush hpop h16
      have hnew : (s.clk i).dataOut.byte = i.dataIn.byte := by
        simp [dataOut, Rfifo.clk, hptrs, hpush, htop, RecWord.byte_append]
      have hold : (s.clk i).dataOut = y := hshow.2 y (by rw [hqueue]; rfl)
      rw [hold, ← h.head (x := y) rfl] at hnew
      exact hne hnew.symm

end Rfifo

/-! ### Runs -/

section Run

variable (T : Tfifo.machine.Run) (R : Rfifo.machine.Run)

theorem tfifo_shows_iff :
    (∀ t, Shows (T.state t).ptrs.count (T.state t).dataOut (queue T.input t)) ↔
      ∀ t, Keeps (T.state t).ptrs.count (T.input t) (T.input t).dataIn (T.state t).dataOut := by
  refine tracked_iff (P := fun t => (T.state t).Rep (queue T.input t)) ?_ ?_ ?_ ?_
  · refine ⟨?_, Ring.holds_nil⟩
    rw [T.start.1]
    exact FifoPtrs.rep_zero
  · intro t h hk
    rw [show T.state (t + 1) = (T.state t).clk (T.input t) from T.next t]
    exact h.clk hk
  · exact fun t h => ⟨h.1.count, fun x hx => h.head hx⟩
  · intro t h hk
    rw [show T.state (t + 1) = (T.state t).clk (T.input t) from T.next t]
    exact h.not_shows hk

theorem rfifo_shows_iff :
    (∀ t, Shows (R.state t).ptrs.count (R.state t).dataOut (queue R.input t)) ↔
      ∀ t, Keeps (R.state t).ptrs.count (R.input t) (R.input t).dataIn.byte
        (R.state t).dataOut.byte := by
  refine tracked_iff (P := fun t => (R.state t).Rep (queue R.input t)) ?_ ?_ ?_ ?_
  · refine ⟨?_, Ring.holds_nil, Ring.holds_nil⟩
    rw [R.start.1]
    exact FifoPtrs.rep_zero
  · intro t h hk
    rw [show R.state (t + 1) = (R.state t).clk (R.input t) from R.next t]
    exact h.clk hk
  · exact fun t h => ⟨h.ptrs.count, fun x hx => h.head hx⟩
  · intro t h hk
    rw [show R.state (t + 1) = (R.state t).clk (R.input t) from R.next t]
    exact h.not_shows hk

/-- Each FIFO is a queue in a run exactly if nothing is pushed and popped at once while it is empty
    and nothing else than the oldest byte is pushed while it is full. A push on a full FIFO always
    sets `overrun`. -/
theorem fifos_are_queues_iff :
    ((∀ t, Shows (T.state t).ptrs.count (T.state t).dataOut (queue T.input t)) ↔
      ∀ t, Keeps (T.state t).ptrs.count (T.input t) (T.input t).dataIn (T.state t).dataOut) ∧
    ((∀ t, Shows (R.state t).ptrs.count (R.state t).dataOut (queue R.input t)) ↔
      ∀ t, Keeps (R.state t).ptrs.count (R.input t) (R.input t).dataIn.byte
        (R.state t).dataOut.byte) ∧
    (∀ t, (T.input t).push = true → (T.input t).pop = false → (T.state t).ptrs.count = 16 →
      (T.input t).fifoReset = false → (T.input t).resetStatus = false →
      (T.state (t + 1)).overrun = true) ∧
    (∀ t, (R.input t).push = true → (R.input t).pop = false → (R.state t).ptrs.count = 16 →
      (R.input t).fifoReset = false → (R.input t).resetStatus = false →
      (R.state (t + 1)).overrun = true) := by
  refine ⟨tfifo_shows_iff T, rfifo_shows_iff R, ?_, ?_⟩
  · intro t hpush _ h16 hr hs
    rw [show T.state (t + 1) = (T.state t).clk (T.input t) from T.next t]
    simp [Tfifo.clk, hpush, h16, hr, hs]
  · intro t hpush hpop h16 hr hs
    rw [show R.state (t + 1) = (R.state t).clk (R.input t) from R.next t]
    simp [Rfifo.clk, hpush, hpop, h16, hr, hs]

end Run

/-- Item `n` is pushed in cycle `n`, without a pop. -/
def pushing {w : ℕ} (n : ℕ) : FifoIn (BitVec w) := ⟨true, false, false, false, BitVec.ofNat w n⟩

/-- Seventeen pushes, for both FIFOs. -/
theorem fifos_are_queues_iff_full : ∃ T : Tfifo.machine.Run, ∃ R : Rfifo.machine.Run,
    T.input = pushing ∧ R.input = (fun n => pushing (8 * n)) ∧
    (T.state 17).overrun = true ∧ (R.state 17).overrun = true ∧
    ¬ (∀ t, Shows (R.state t).ptrs.count (R.state t).dataOut (queue R.input t)) := by
  let T : Tfifo.machine.Run :=
    .ofInput ⟨⟨0, 0, 0⟩, fun _ => 0, false⟩ pushing ⟨rfl, rfl⟩ (fun _ => trivial)
  let R : Rfifo.machine.Run :=
    .ofInput ⟨⟨0, 0, 0⟩, fun _ => 0, fun _ => 0, false⟩ (fun n => pushing (8 * n))
      ⟨rfl, rfl, rfl⟩ (fun _ => trivial)
  obtain ⟨-, hR, hT', hR'⟩ := fifos_are_queues_iff T R
  refine ⟨T, R, rfl, rfl, ?_, ?_, ?_⟩
  · exact hT' 16 rfl rfl (by decide) rfl rfl
  · exact hR' 16 rfl rfl (by decide) rfl rfl
  · rw [hR]
    intro h
    have h16 : ¬ Keeps (R.state 16).ptrs.count (R.input 16) (R.input 16).dataIn.byte
      (R.state 16).dataOut.byte := by unfold Keeps; decide
    exact h16 (h 16)

/-- A byte that is pushed while an empty FIFO is popped is never counted, and the seventeenth byte
    takes the place of the first. -/
theorem fifos_lose_items :
    (∃ T : Tfifo.machine.Run, T.input 0 = ⟨true, true, false, false, 0x55⟩ ∧
      queue T.input 1 = [0x55] ∧ (T.state 1).ptrs.count = 0) ∧
    (∃ R : Rfifo.machine.Run, (∀ t, R.input t = pushing (8 * t)) ∧
      (queue R.input 17).head? = some 0 ∧ (R.state 17).ptrs.count = 16 ∧
      (R.state 17).dataOut.byte = 16) := by
  refine ⟨⟨.ofInput ⟨⟨0, 0, 0⟩, fun _ => 0, false⟩ (fun _ => ⟨true, true, false, false, 0x55⟩)
      ⟨rfl, rfl⟩ (fun _ => trivial), rfl, by decide, by decide⟩, ?_⟩
  exact ⟨.ofInput ⟨⟨0, 0, 0⟩, fun _ => 0, fun _ => 0, false⟩ (fun n => pushing (8 * n))
    ⟨rfl, rfl, rfl⟩ (fun _ => trivial), fun _ => rfl, by decide, by decide, by decide⟩

end DsdOrsoc.Uart
