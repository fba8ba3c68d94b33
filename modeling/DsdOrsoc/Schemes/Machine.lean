import Mathlib.Tactic

/-! Clocked machines. Every block of the design is a set of registers that one clock edge rewrites
    from their old values and the input pins of that cycle. A `Machine` adds what the environment
    may do: the states it starts from and the inputs it may apply in a state. `Reachable` collects
    the states after finitely many legal edges (SAFETY is an invariant of it), `Run` is an endless
    legal execution (PROGRESS is a statement about its cycles). -/

namespace DsdOrsoc.Schemes

/-- A clocked machine together with the rules its environment keeps. -/
structure Machine (σ ι : Type*) where
  start : σ → Prop
  legal : σ → ι → Prop
  step : σ → ι → σ

namespace Machine

variable {σ ι : Type*} (M : Machine σ ι)

/-- The states after finitely many legal clock edges. -/
inductive Reachable : σ → Prop
  | start {s : σ} : M.start s → Reachable s
  | step {s : σ} {i : ι} : Reachable s → M.legal s i → Reachable (M.step s i)

/-- An endless legal execution: the registers and the inputs of every cycle. -/
structure Run where
  state : ℕ → σ
  input : ℕ → ι
  start : M.start (state 0)
  legal : ∀ t, M.legal (state t) (input t)
  next : ∀ t, state (t + 1) = M.step (state t) (input t)

/-- A finite sequence of legal clock edges. -/
def Legal : σ → List ι → Prop
  | _, [] => True
  | s, i :: is => M.legal s i ∧ Legal (M.step s i) is

/-- The states that a sequence of inputs leads through. -/
def trace (s : σ) (input : ℕ → ι) : ℕ → σ
  | 0 => s
  | t + 1 => M.step (trace s input t) (input t)

variable {M}

/-- The execution on a sequence of legal inputs. -/
def Run.ofInput (s : σ) (input : ℕ → ι) (h : M.start s)
    (hl : ∀ t, M.legal (M.trace s input t) (input t)) : M.Run :=
  ⟨M.trace s input, input, h, hl, fun _ => rfl⟩

/-- What holds at the start and survives every legal edge holds in every reachable state. -/
theorem Reachable.invariant {I : σ → Prop} (h0 : ∀ s, M.start s → I s)
    (hstep : ∀ s i, I s → M.legal s i → I (M.step s i)) {s : σ} (hs : M.Reachable s) : I s := by
  induction hs with
  | start h => exact h0 _ h
  | step _ hl ih => exact hstep _ _ ih hl

theorem Reachable.foldl : ∀ {is : List ι} {s : σ}, M.Reachable s → M.Legal s is →
    M.Reachable (is.foldl M.step s)
  | [], _, hs, _ => hs
  | _ :: _, _, hs, hl => (hs.step hl.1).foldl hl.2

theorem Run.reachable (r : M.Run) : ∀ t, M.Reachable (r.state t)
  | 0 => .start r.start
  | t + 1 => by rw [r.next]; exact .step (r.reachable t) (r.legal t)

/-- A reachable state is passed by an execution that goes on with any sequence of legal inputs. -/
theorem Reachable.exists_run {s : σ} (hs : M.Reachable s) : ∀ input : ℕ → ι,
    (∀ t, M.legal (M.trace s input t) (input t)) →
    ∃ (R : M.Run) (n : ℕ), ∀ t,
      R.state (n + t) = M.trace s input t ∧ R.input (n + t) = input t := by
  induction hs with
  | start h =>
    intro input hl
    refine ⟨.ofInput _ input h hl, 0, fun t => ?_⟩
    rw [Nat.zero_add]
    exact ⟨rfl, rfl⟩
  | @step s i _ hl ih =>
    intro input hl'
    -- the edge into the state comes before its inputs
    let before : ℕ → ι := fun t => t.casesOn i input
    have htrace : ∀ t, M.trace s before (t + 1) = M.trace (M.step s i) input t := by
      intro t
      induction t with
      | zero => rfl
      | succ t iht =>
        change M.step (M.trace s before (t + 1)) (input t) = _
        rw [iht]
        rfl
    obtain ⟨R, n, hR⟩ := ih before fun t => by
      cases t with
      | zero => exact hl
      | succ t =>
        rw [htrace]
        exact hl' t
    refine ⟨R, n + 1, fun t => ?_⟩
    obtain ⟨h1, h2⟩ := hR (t + 1)
    rw [show n + 1 + t = n + (t + 1) by omega]
    exact ⟨h1.trans (htrace t), h2⟩

/-! ### Simulation -/

/-- A relation between the states of two machines that the start states have, and that every legal
    edge of the first keeps if the second answers it with finitely many legal edges. -/
structure Simulates {τ κ : Type*} (M : Machine σ ι) (N : Machine τ κ) (R : σ → τ → Prop) :
    Prop where
  start : ∀ s, M.start s → ∃ t, N.start t ∧ R s t
  step : ∀ s t i, R s t → M.legal s i → ∃ ks, N.Legal t ks ∧ R (M.step s i) (ks.foldl N.step t)

/-- RUN: every reachable state of the first machine is related to one of the second. -/
theorem Simulates.reachable {τ κ : Type*} {N : Machine τ κ} {R : σ → τ → Prop}
    (h : Simulates M N R) {s : σ} (hs : M.Reachable s) : ∃ t, N.Reachable t ∧ R s t := by
  induction hs with
  | start h0 =>
    obtain ⟨t, ht, hr⟩ := h.start _ h0
    exact ⟨t, .start ht, hr⟩
  | step _ hl ih =>
    obtain ⟨t, ht, hr⟩ := ih
    obtain ⟨ks, hks, hr'⟩ := h.step _ _ _ hr hl
    exact ⟨_, ht.foldl hks, hr'⟩

end Machine

end DsdOrsoc.Schemes
