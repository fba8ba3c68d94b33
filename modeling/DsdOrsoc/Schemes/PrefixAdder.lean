import Mathlib.Tactic

/-! Carries by parallel prefix. Position `i` of an adder generates a carry if both operand bits are
    set and propagates one if at least one is:

        c 0 = carry in        c (i+1) = g i ∨ (p i ∧ c i)

    A level of the network with span `s` joins every window of `s` positions with the one below it,
    so that the windows double and those that reach down to the carry in are complete. -/

namespace DsdOrsoc.Schemes.PrefixAdder

variable (cin : Bool) (g p : ℕ → Bool)

/-- The carry into position `i`. -/
def carry : ℕ → Bool
  | 0 => cin
  | i + 1 => g i || (p i && carry i)

/-- The `n` positions from `lo` on generate a carry. -/
def gen (lo : ℕ) : ℕ → Bool
  | 0 => false
  | n + 1 => g (lo + n) || (p (lo + n) && gen lo n)

/-- The `n` positions from `lo` on propagate a carry. -/
def prop (lo : ℕ) : ℕ → Bool
  | 0 => true
  | n + 1 => p (lo + n) && prop lo n

variable {cin g p}

theorem prop_add (lo m n : ℕ) : prop p lo (m + n) = (prop p lo m && prop p (lo + m) n) := by
  induction n with
  | zero => simp [prop]
  | succ n ih =>
    rw [← add_assoc, prop, prop, ih, add_assoc]
    ac_rfl

theorem gen_add (lo m n : ℕ) :
    gen g p lo (m + n) = (gen g p (lo + m) n || (prop p (lo + m) n && gen g p lo m)) := by
  induction n with
  | zero => simp [gen, prop]
  | succ n ih =>
    rw [← add_assoc, gen, gen, prop, ih, ← add_assoc]
    cases g (lo + m + n) <;> cases p (lo + m + n) <;> simp

theorem carry_add (lo n : ℕ) :
    carry cin g p (lo + n) = (gen g p lo n || (prop p lo n && carry cin g p lo)) := by
  induction n with
  | zero => simp [gen, prop]
  | succ n ih =>
    rw [← add_assoc, carry, gen, prop, ih]
    cases g (lo + n) <;> cases p (lo + n) <;> simp

/-! ### The network -/

/-- One level: `s` is the span, `P` and `G` are what comes in. -/
def levelP (s : ℕ) (P : ℕ → Bool) (j : ℕ) : Bool := P j && P (j + s)

def levelG (s : ℕ) (P G : ℕ → Bool) (i : ℕ) : Bool :=
  if i < s then G i else G i || (P (i - s) && G (i - s))

/-- INVARIANT: `P` and `G` belong to windows of `s` positions; index `i` of `G` is the window below
    position `i`, and is the carry where the window reaches the carry in. -/
structure Spans (cin : Bool) (g p : ℕ → Bool) (s : ℕ) (P G : ℕ → Bool) : Prop where
  prop : ∀ j, P j = prop p j s
  carry : ∀ i, i < s → G i = carry cin g p i
  gen : ∀ i, s ≤ i → G i = gen g p (i - s) s

theorem spans_one {G : ℕ → Bool} (h0 : G 0 = cin) (hg : ∀ i, G (i + 1) = g i) :
    Spans cin g p 1 p G where
  prop j := by simp [PrefixAdder.prop]
  carry i hi := by
    obtain rfl : i = 0 := by omega
    exact h0
  gen i hi := by
    obtain ⟨i, rfl⟩ : ∃ k, i = k + 1 := ⟨i - 1, by omega⟩
    simp [PrefixAdder.gen, hg]

/-- STEP: a level doubles the windows. -/
theorem Spans.level {s : ℕ} {P G : ℕ → Bool} (h : Spans cin g p s P G) :
    Spans cin g p (2 * s) (levelP s P) (levelG s P G) where
  prop j := by rw [levelP, h.prop, h.prop, two_mul, prop_add]
  carry i hi := by
    rw [levelG]
    split
    · next hs => exact h.carry i hs
    · next hs =>
      have hs : s ≤ i := not_lt.1 hs
      have hi' : i - s < s := by omega
      rw [h.gen i hs, h.prop, h.carry _ hi', ← carry_add, Nat.sub_add_cancel hs]
  gen i hi := by
    have hs : s ≤ i := by omega
    have hs' : s ≤ i - s := by omega
    have hsub : i - s - s + s = i - s := Nat.sub_add_cancel hs'
    rw [levelG, if_neg (not_lt.2 hs), h.gen i hs, h.prop, h.gen _ hs', two_mul, ← Nat.sub_sub,
      gen_add, hsub]

/-! ### Sums -/

/-- The number in the lowest `n` bits. -/
@[irreducible] def num (a : ℕ → Bool) (n : ℕ) : ℕ := ∑ i ∈ Finset.range n, 2 ^ i * (a i).toNat

theorem num_congr {a b : ℕ → Bool} {n : ℕ} (h : ∀ i, i < n → a i = b i) : num a n = num b n := by
  rw [num, num]
  exact Finset.sum_congr rfl fun i hi => by rw [h i (Finset.mem_range.1 hi)]

/-- Bits with their carries add. -/
theorem num_add (cin : Bool) (a b : ℕ → Bool) (n : ℕ) :
    num (fun i => (a i ^^ b i) ^^ carry cin (fun i => a i && b i) (fun i => a i || b i) i) n +
        2 ^ n * (carry cin (fun i => a i && b i) (fun i => a i || b i) n).toNat =
      num a n + num b n + cin.toNat := by
  induction n with
  | zero => simp [num, carry]
  | succ n ih =>
    simp only [num, Finset.sum_range_succ] at ih ⊢
    rw [carry, pow_succ]
    revert ih
    cases a n <;> cases b n <;>
      cases carry cin (fun i => a i && b i) (fun i => a i || b i) n <;> simp <;> omega

end DsdOrsoc.Schemes.PrefixAdder
