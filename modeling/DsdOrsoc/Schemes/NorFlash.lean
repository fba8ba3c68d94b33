import Mathlib.Tactic

/-! A NOR flash with the AMD command set, as far as programming needs it. Four write cycles program
    one word, and a program operation can only clear bits:

        array ──▶ unlocking ──▶ unlocked ──▶ setup ──▶ busy ──▶ array
          first, AA   second, 55    first, A0    word      by itself

    A wrong cycle leads back to the array. While the chip is busy a read returns its status, in
    which bit DQ7 is the complement of the bit that is being programmed. -/

namespace DsdOrsoc.Schemes.NorFlash

/-- How the chip takes the bus: the addresses of the unlock cycles, the command in a word, and
    DQ7. -/
structure Wiring (α : Type) (w : ℕ) where
  first : α → Bool
  second : α → Bool
  command : BitVec w → BitVec 8
  dq7 : BitVec w → Bool

inductive Mode (w : ℕ) where
  | array | unlocking | unlocked | setup
  | busy (data : BitVec w)
  deriving DecidableEq

/-- The chip, with the addresses that have been programmed so far. -/
structure Chip (α : Type) (w : ℕ) where
  mode : Mode w
  mem : α → BitVec w
  programs : List α

namespace Chip

variable {α : Type} {w : ℕ} (W : Wiring α w) (c : Chip α w)

/-- Whether a program operation is going on. -/
def isBusy : Bool :=
  match c.mode with
  | .busy _ => true
  | _ => false

/-- A write cycle. -/
def write [DecidableEq α] (a : α) (d : BitVec w) : Chip α w :=
  match c.mode with
  | .array =>
    { c with mode := if W.first a && W.command d == 0xAA then .unlocking else .array }
  | .unlocking =>
    { c with mode := if W.second a && W.command d == 0x55 then .unlocked else .array }
  | .unlocked => { c with mode := if W.first a && W.command d == 0xA0 then .setup else .array }
  | .setup =>
    { mode := .busy d, mem := Function.update c.mem a (c.mem a &&& d),
      programs := c.programs ++ [a] }
  | .busy _ => c

/-- A read cycle; `done` says that the operation is over by now, otherwise the chip shows its
    status. -/
def read (done : Bool) (status : BitVec w) (a : α) : BitVec w × Chip α w :=
  match c.mode with
  | .busy _ => if done then (c.mem a, { c with mode := .array }) else (status, c)
  | _ => (c.mem a, c)

/-- Data polling: the status of a busy chip shows DQ7 complemented. -/
def Polls (done : Bool) (status : BitVec w) : Prop :=
  ∀ d, c.mode = .busy d → done = false → W.dq7 status = !W.dq7 d

variable {W c}

/-- PROGRAM: the four cycles clear bits of one word and leave the chip busy. -/
theorem write_program [DecidableEq α] (hmode : c.mode = .array) {a₁ a₂ : α} {d₁ d₂ d₃ : BitVec w}
    (hfirst : W.first a₁ = true) (hsecond : W.second a₂ = true) (h₁ : W.command d₁ = 0xAA)
    (h₂ : W.command d₂ = 0x55) (h₃ : W.command d₃ = 0xA0) (a : α) (d : BitVec w) :
    (((c.write W a₁ d₁).write W a₂ d₂).write W a₁ d₃).write W a d =
      { mode := .busy d, mem := Function.update c.mem a (c.mem a &&& d),
        programs := c.programs ++ [a] } := by
  simp [write, hmode, hfirst, hsecond, h₁, h₂, h₃]

theorem read_of_array (hmode : c.mode = .array) (done : Bool) (status : BitVec w) (a : α) :
    c.read done status a = (c.mem a, c) := by
  simp [read, hmode]

theorem read_of_busy {d : BitVec w} (hmode : c.mode = .busy d) (done : Bool) (status : BitVec w)
    (a : α) :
    c.read done status a = if done then (c.mem a, { c with mode := .array }) else (status, c) := by
  simp [read, hmode]

/-- A busy chip never looks as if it were ready. -/
theorem Polls.status_ne {done : Bool} {status d : BitVec w} (h : c.Polls W done status)
    (hmode : c.mode = .busy d) (hdone : done = false) : status ≠ d := by
  rintro rfl
  have hcompl := h _ hmode hdone
  cases hq : W.dq7 status <;> simp [hq] at hcompl

end Chip

end DsdOrsoc.Schemes.NorFlash
