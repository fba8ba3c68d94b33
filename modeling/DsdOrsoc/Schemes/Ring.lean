import Mathlib.Tactic

/-! Bounded queues and their ring buffers. `Queue.next` is one cycle of a queue with a push and a
    pop strobe; `Ring.Holds` says that a RAM holds the items of a list from an address on, in
    wrapping order:

        bottom            top
          │                │
        ..q₀ q₁ q₂ ... qₙ₋₁ ..          slot bottom k  =  bottom + k  modulo 2 ^ w -/

namespace DsdOrsoc.Schemes

variable {α β : Type*}

/-- One cycle of a queue of the given depth. A pop of an empty queue does nothing; a push of a full
    queue is dropped unless a pop makes room. -/
def Queue.next (depth : ℕ) (q : List α) (push pop : Bool) (x : α) : List α :=
  match push, pop with
  | false, false => q
  | true, false => if q.length < depth then q ++ [x] else q
  | false, true => q.tail
  | true, true => q.tail ++ [x]

theorem Queue.map_next (f : α → β) (depth : ℕ) (q : List α) (push pop : Bool) (x : α) :
    (Queue.next depth q push pop x).map f = Queue.next depth (q.map f) push pop (f x) := by
  cases push <;> cases pop
  · rfl
  · exact List.map_tail
  · simp only [Queue.next, List.length_map]
    split <;> simp
  · simp [Queue.next]

namespace Ring

variable {w : ℕ}

/-- The address `k` places after `b`. -/
def slot (b : BitVec w) (k : ℕ) : BitVec w := b + BitVec.ofNat w k

@[simp] theorem slot_zero (b : BitVec w) : slot b 0 = b := by
  simp [slot]

theorem slot_succ (b : BitVec w) (k : ℕ) : slot (b + 1) k = slot b (k + 1) := by
  rw [slot, slot, BitVec.ofNat_add, BitVec.add_assoc, BitVec.add_comm 1]
  rfl

theorem slot_add_one (b : BitVec w) (k : ℕ) : slot b k + 1 = slot b (k + 1) := by
  rw [slot, slot, BitVec.ofNat_add, BitVec.add_assoc]
  rfl

theorem slot_full (b : BitVec w) : slot b (2 ^ w) = b := by
  have h : BitVec.ofNat w (2 ^ w) = 0#w := by
    apply BitVec.eq_of_toNat_eq
    rw [BitVec.toNat_ofNat, Nat.mod_self, BitVec.toNat_zero]
  rw [slot, h, BitVec.add_zero]

theorem slot_inj {b : BitVec w} {j k : ℕ} (hj : j < 2 ^ w) (hk : k < 2 ^ w)
    (h : slot b j = slot b k) : j = k := by
  have h' : BitVec.ofNat w j = BitVec.ofNat w k := (BitVec.add_right_inj b).1 h
  have := congrArg BitVec.toNat h'
  rwa [BitVec.toNat_ofNat, BitVec.toNat_ofNat, Nat.mod_eq_of_lt hj, Nat.mod_eq_of_lt hk] at this

/-- The RAM holds the items of the list from address `b` on. -/
def Holds (ram : BitVec w → α) (b : BitVec w) (q : List α) : Prop :=
  ∀ k x, q[k]? = some x → ram (slot b k) = x

variable {ram : BitVec w → α} {b : BitVec w} {q : List α}

theorem holds_nil : Holds ram b ([] : List α) := by
  intro k x h
  cases h

theorem Holds.head {x : α} (h : Holds ram b (x :: q)) : ram b = x := by
  simpa using h 0 x rfl

theorem Holds.tail (h : Holds ram b q) : Holds ram (b + 1) q.tail := by
  intro k x hk
  rw [slot_succ]
  exact h (k + 1) x (by rwa [List.getElem?_tail] at hk)

/-- A write behind the items. -/
theorem Holds.write (h : Holds ram b q) {k : ℕ} (hk : q.length ≤ k) (hw : k < 2 ^ w) (y : α) :
    Holds (Function.update ram (slot b k) y) b q := by
  intro j x hj
  have hlt : j < q.length := (List.getElem?_eq_some_iff.1 hj).1
  have hne : slot b j ≠ slot b k := by
    intro he
    have := slot_inj (hlt.trans_le hk |>.trans hw) hw he
    omega
  rw [Function.update_of_ne hne]
  exact h j x hj

theorem Holds.append (h : Holds ram b q) (hw : q.length < 2 ^ w) (y : α) :
    Holds (Function.update ram (slot b q.length) y) b (q ++ [y]) := by
  intro j x hj
  rcases Nat.lt_trichotomy j q.length with hlt | rfl | hgt
  · rw [List.getElem?_append_left hlt] at hj
    exact h.write le_rfl hw y j x hj
  · have hxy : y = x := by simpa using hj
    rw [Function.update_self, hxy]
  · rw [List.getElem?_eq_none (by simp; omega)] at hj
    cases hj

/-- Overwriting the first item of a full ring by itself changes nothing. -/
theorem Holds.overwrite {x : α} (h : Holds ram b (x :: q)) :
    Holds (Function.update ram b x) b (x :: q) := by
  rw [← h.head, Function.update_eq_self]
  rwa [h.head]

/-- One cycle of a ring whose RAM is written on every push: it follows the queue if no item is
    pushed and popped at once on an empty ring, and none other than the first item itself is pushed
    on a full one. -/
theorem Holds.next (h : Holds ram b q) (hq : q.length ≤ 2 ^ w) {push pop : Bool} {x : α}
    (hempty : push = true → pop = true → q ≠ [])
    (hfull : push = true → pop = false → q.length = 2 ^ w → q.head? = some x) :
    Holds (if push then Function.update ram (slot b q.length) x else ram)
      (if pop = true ∧ q ≠ [] then b + 1 else b) (Queue.next (2 ^ w) q push pop x) := by
  have hpow : 0 < 2 ^ w := Nat.two_pow_pos w
  cases push <;> cases pop
  · simpa [Queue.next] using h
  · cases q with
    | nil => simpa [Queue.next] using h
    | cons y q => simpa [Queue.next] using h.tail
  · simp only [Queue.next, if_true, Bool.false_eq_true, false_and, if_false]
    split
    · next hlt => exact h.append hlt x
    · next hge =>
      have hlen : q.length = 2 ^ w := by omega
      cases q with
      | nil => exact absurd hlen hpow.ne
      | cons y q =>
        obtain rfl : y = x := by simpa using hfull rfl rfl hlen
        rw [hlen, slot_full]
        exact h.overwrite
  · cases q with
    | nil => exact absurd rfl (hempty rfl rfl)
    | cons y q =>
      have hlt : q.length < 2 ^ w := by simpa using hq
      have := h.tail.append hlt x
      rw [List.tail_cons, slot_succ] at this
      simpa [Queue.next] using this

/-! ### Unoccupied slots -/

/-- The slots behind the first `n` hold `z`. -/
def Clear (ram : BitVec w → α) (b : BitVec w) (n : ℕ) (z : α) : Prop :=
  ∀ k, n ≤ k → k < 2 ^ w → ram (slot b k) = z

theorem exists_slot (b a : BitVec w) : ∃ k < 2 ^ w, slot b k = a := by
  refine ⟨(a - b).toNat, (a - b).isLt, ?_⟩
  rw [slot, BitVec.ofNat_toNat, BitVec.setWidth_eq, BitVec.add_comm, BitVec.sub_add_cancel]

variable {n : ℕ} {z : α}

theorem Clear.push (h : Clear ram b n z) (y : α) :
    Clear (Function.update ram (slot b n) y) b (n + 1) z := by
  intro k hk hw
  have hne : slot b k ≠ slot b n := by
    intro he
    have := slot_inj hw (by omega) he
    omega
  rw [Function.update_of_ne hne]
  exact h k (by omega) hw

/-- A pop that clears the slot it leaves. -/
theorem Clear.pop (h : Clear ram b (n + 1) z) : Clear (Function.update ram b z) (b + 1) n z := by
  intro k hk hw
  rw [slot_succ]
  by_cases he : slot b (k + 1) = b
  · rw [he, Function.update_self]
  · rw [Function.update_of_ne he]
    refine h (k + 1) (by omega) ?_
    by_contra hge
    obtain hlast : k + 1 = 2 ^ w := by omega
    exact he (hlast ▸ slot_full b)

/-- A push and a pop at once leave the old slot as it is: it must have been clear, unless the new
    item goes there. -/
theorem Clear.turn (h : Clear ram b n z) (h0 : 0 < n) (hb : n < 2 ^ w → ram b = z) (y : α) :
    Clear (Function.update ram (slot b n) y) (b + 1) n z := by
  intro k hk hw
  rw [slot_succ]
  rcases Nat.lt_or_ge (k + 1) (2 ^ w) with hlt | hge
  · rw [← h.push y (k + 1) (by omega) hlt]
  · obtain hlast : k + 1 = 2 ^ w := by omega
    have hne : b ≠ slot b n := by
      intro he
      have := slot_inj (b := b) (Nat.two_pow_pos w) (hk.trans_lt hw) (by rwa [slot_zero])
      omega
    rw [hlast, slot_full, Function.update_of_ne hne]
    exact hb (hk.trans_lt hw)

/-- A ring with clear unoccupied slots has something else than `z` in it if and only if the list
    has. -/
theorem Holds.exists_ne_iff (h : Holds ram b q) (hc : Clear ram b q.length z) :
    (∃ a, ram a ≠ z) ↔ ∃ x ∈ q, x ≠ z := by
  constructor
  · rintro ⟨a, ha⟩
    obtain ⟨k, hk, rfl⟩ := exists_slot b a
    have hlt : k < q.length := by
      by_contra hge
      exact ha (hc k (by omega) hk)
    have hx := h k q[k] (List.getElem?_eq_getElem hlt)
    exact ⟨q[k], List.getElem_mem hlt, hx ▸ ha⟩
  · rintro ⟨x, hx, hne⟩
    obtain ⟨k, hk, rfl⟩ := List.getElem_of_mem hx
    exact ⟨slot b k, by rwa [h k q[k] (List.getElem?_eq_getElem hk)]⟩

end Ring

end DsdOrsoc.Schemes
