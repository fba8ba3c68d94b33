import DsdOrsoc.Schemes.Machine
import DsdOrsoc.Conmax.SlaveIf

/-! The arbiter `wb_conmax_arb` on its own, with its eight hand-written chains. Seen from a master
    `i` that requests, the grant can only come nearer:

        gnt        3   3   3   5   5   0   0   2          req[2] held
        distance   7   7   7   5   5   2   2   0

    so a master that has lost the grant does not get it back before `i`. -/

namespace DsdOrsoc.Conmax
open Schemes

/-- The chain of one state: the requests are looked at in the order written down. -/
def chain (req : Master → Bool) (next : Bool) (state : Master) (order : List Master) : Master :=
  if !req state || next then (order.find? req).getD state else state

/-- `next_state`. -/
def nextState (state : Master) (req : Master → Bool) (next : Bool) : Master :=
  if state = 0 then chain req next 0 [1, 2, 3, 4, 5, 6, 7]
  else if state = 1 then chain req next 1 [2, 3, 4, 5, 6, 7, 0]
  else if state = 2 then chain req next 2 [3, 4, 5, 6, 7, 0, 1]
  else if state = 3 then chain req next 3 [4, 5, 6, 7, 0, 1, 2]
  else if state = 4 then chain req next 4 [5, 6, 7, 0, 1, 2, 3]
  else if state = 5 then chain req next 5 [6, 7, 0, 1, 2, 3, 4]
  else if state = 6 then chain req next 6 [7, 0, 1, 2, 3, 4, 5]
  else chain req next 7 [0, 1, 2, 3, 4, 5, 6]

/-- The eight chains are one rule. -/
theorem nextState_eq (state : Master) (req : Master → Bool) (next : Bool) :
    nextState state req next = arbNext state req next := by
  have horder : ∀ m : Master, nextState m req next = chain req next m (RoundRobin.behind m) := by
    intro m
    rcases master_cases m with rfl | rfl | rfl | rfl | rfl | rfl | rfl | rfl <;> rfl
  exact horder state

/-- The pins of the arbiter. -/
structure ArbIn where
  req : Master → Bool
  next : Bool

/-- The arbiter from reset, with any requests and `next` tied low. -/
def arbiter : Machine Master ArbIn where
  start gnt := gnt = 0
  legal _ i := i.next = false
  step gnt i := nextState gnt i.req i.next

variable (R : arbiter.Run)

theorem gnt_succ (t : ℕ) : R.state (t + 1) = RoundRobin.grant (R.input t).req (R.state t) := by
  rw [← arbNext_eq, ← nextState_eq, R.next t, ← R.legal t]
  rfl

/-- Master `i` requests in every cycle from `a` to `b`. -/
def Requests (i : Master) (a b : ℕ) : Prop := ∀ t, a ≤ t → t < b → (R.input t).req i = true

/-- From cycle `a` to cycle `b` a master has the grant at most once: its cycles are consecutive. -/
def GrantedOnce (j : Master) (a b : ℕ) : Prop :=
  ∀ u v w, a ≤ u → u ≤ v → v ≤ w → w ≤ b → R.state u = j → R.state w = j → R.state v = j

variable {R} {i : Master} {a b : ℕ}

/-- RUN: the distance to a requesting master never grows. -/
theorem Requests.dist_le (h : Requests R i a b) {u v : ℕ} (hu : a ≤ u) (huv : u ≤ v) (hv : v ≤ b) :
    RoundRobin.dist (R.state v) i ≤ RoundRobin.dist (R.state u) i := by
  induction v, huv using Nat.le_induction with
  | base => exact le_rfl
  | succ v huv ih =>
    rw [gnt_succ]
    exact (RoundRobin.dist_grant_le _ (h v (by omega) hv)).trans (ih (by omega))

variable (R)

/-- Round-robin fairness: the grant leaves a master only when it does not request; and while master
    `i` requests, a holder that does not request loses the grant to a master nearer to `i`, the
    grant goes forward without passing over `i`, and every master has it at most once. -/
theorem arbiter_fair :
    (∀ t, R.state (t + 1) ≠ R.state t → (R.input t).req (R.state t) = false) ∧
    ∀ i a b, Requests R i a b →
      (∀ t, a ≤ t → t < b → (R.input t).req (R.state t) = false →
        RoundRobin.dist (R.state (t + 1)) i < RoundRobin.dist (R.state t) i) ∧
      (∀ t, a ≤ t → t < b →
        RoundRobin.dist (R.state t) (R.state (t + 1)) ≤ RoundRobin.dist (R.state t) i) ∧
      ∀ j, GrantedOnce R j a b := by
  refine ⟨fun t hne => ?_, fun i a b h => ⟨fun t ha hb hreq => ?_, fun t ha hb => ?_, ?_⟩⟩
  · by_contra hreq
    rw [Bool.not_eq_false] at hreq
    exact hne ((gnt_succ R t).trans (RoundRobin.grant_of_req hreq))
  · rw [gnt_succ]
    exact RoundRobin.dist_grant_lt hreq (h t ha hb)
  · rw [gnt_succ]
    exact RoundRobin.dist_holder_le _ (h t ha hb)
  · intro j u v w hu huv hvw hw hju hjw
    -- the distance is squeezed between its two equal values
    have h1 := h.dist_le hu huv (hvw.trans hw)
    have h2 := h.dist_le (hu.trans huv) hvw hw
    rw [hjw] at h2
    rw [hju] at h1
    exact RoundRobin.eq_of_dist_eq (h1.antisymm h2)

/-- Master 0 requests in two cycles, master 1 in four, master 2 for ever. -/
def handOver (t : ℕ) : ArbIn where
  req j := decide (j = 0 ∧ t < 2 ∨ j = 1 ∧ t < 4 ∨ j = 2)
  next := false

def handOverRun : arbiter.Run := .ofInput 0 handOver rfl fun _ => rfl

/-- The grant goes from 0 over 1 to 2, and comes nearer to 2 each time. -/
theorem arbiter_fair_hand_over :
    (List.range 7).map handOverRun.state = [0, 0, 0, 1, 1, 2, 2] ∧
    RoundRobin.dist (handOverRun.state 3) 2 < RoundRobin.dist (handOverRun.state 2) 2 ∧
    RoundRobin.dist (handOverRun.state 5) 2 < RoundRobin.dist (handOverRun.state 4) 2 ∧
    GrantedOnce handOverRun 1 0 6 := by
  have hreq : Requests handOverRun 2 0 6 := fun t _ _ => by
    simp [handOverRun, Machine.Run.ofInput, handOver]
  obtain ⟨hmove, -, honce⟩ := (arbiter_fair handOverRun).2 2 0 6 hreq
  exact ⟨by decide, hmove 2 (by omega) (by omega) (by decide),
    hmove 4 (by omega) (by omega) (by decide), honce 1⟩

end DsdOrsoc.Conmax
