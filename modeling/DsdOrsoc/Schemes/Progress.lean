import Mathlib.Tactic
import Mathlib.Data.Nat.Nth

/-! Progress along an endless execution, for predicates over its cycles: what holds until a target
    is reached, a rank that says the target comes, and what can be seen at the ticks of a clock. -/

namespace DsdOrsoc.Schemes

variable {P Q : ℕ → Prop}

/-- What happens at some time happens a first time. -/
theorem first_time {t : ℕ} (h : ∃ u, t ≤ u ∧ Q u) :
    ∃ u, t ≤ u ∧ Q u ∧ ∀ v, t ≤ v → v < u → ¬ Q v := by
  classical
  obtain ⟨htu, hq⟩ := Nat.find_spec h
  exact ⟨Nat.find h, htu, hq, fun v hv hlt hqv => Nat.find_min h hlt ⟨hv, hqv⟩⟩

/-- TRACKING: if a relation with a specification is kept in the good cycles, makes the observations
    right, and a bad cycle makes the next one wrong, then all observations are right exactly if all
    cycles are good. -/
theorem tracked_iff {good obs : ℕ → Prop} (h0 : P 0) (hstep : ∀ t, P t → good t → P (t + 1))
    (hobs : ∀ t, P t → obs t) (hbad : ∀ t, P t → ¬ good t → ¬ obs (t + 1)) :
    (∀ t, obs t) ↔ ∀ t, good t := by
  refine ⟨fun h => ?_, fun h t => hobs t ?_⟩
  · have hP : ∀ t, P t ∧ good t := by
      intro t
      induction t with
      | zero => exact ⟨h0, by_contra fun hn => hbad 0 h0 hn (h 1)⟩
      | succ t ih =>
        have hp := hstep t ih.1 ih.2
        exact ⟨hp, by_contra fun hn => hbad _ hp hn (h _)⟩
    exact fun t => (hP t).2
  · induction t with
    | zero => exact h0
    | succ t ih => exact hstep t ih (h t)

/-- RANK: if every cycle of a phase either ends it or lowers a rank, the phase ends. -/
theorem phase_ends (rank : ℕ → ℕ)
    (hstep : ∀ t, P t → Q (t + 1) ∨ (P (t + 1) ∧ rank (t + 1) < rank t)) {t : ℕ} (h : P t) :
    ∃ n, t < n ∧ Q n ∧ ∀ u, t ≤ u → u < n → P u := by
  induction hr : rank t using Nat.strong_induction_on generalizing t with
  | h k ih =>
    rcases hstep t h with hq | ⟨hp, hlt⟩
    · refine ⟨t + 1, by omega, hq, fun u h1 h2 => ?_⟩
      obtain rfl : u = t := by omega
      exact h
    · obtain ⟨n, hn, hqn, hpn⟩ := ih _ (hr ▸ hlt) hp rfl
      refine ⟨n, by omega, hqn, fun u h1 h2 => ?_⟩
      rcases Nat.eq_or_lt_of_le h1 with rfl | h1
      · exact h
      · exact hpn u h1 h2

/-- Until the `k`-th cycle from now the target is reached, or the phase lasts and the rank has not
    risen. -/
theorem phase_lasts {rank : ℕ → ℕ} {tick : ℕ → Prop}
    (hstep : ∀ t, P t → Q (t + 1) ∨
      (P (t + 1) ∧ rank (t + 1) ≤ rank t ∧ (tick t → rank (t + 1) < rank t)))
    {t : ℕ} (h : P t) (k : ℕ) :
    (∃ n, t < n ∧ Q n) ∨ (P (t + k) ∧ rank (t + k) ≤ rank t) := by
  induction k with
  | zero => exact .inr ⟨h, le_refl _⟩
  | succ k ih =>
    rcases ih with hq | ⟨hp, hle⟩
    · exact .inl hq
    · rcases hstep _ hp with hq | ⟨hp', hle', -⟩
      · exact .inl ⟨t + k + 1, by omega, hq⟩
      · exact .inr ⟨hp', hle'.trans hle⟩

/-- FAIR RANK: if the rank never rises in a phase and falls at the ticks of a clock that never
    stops, the phase ends. -/
theorem fair_phase_ends (rank : ℕ → ℕ) {tick : ℕ → Prop} (hfair : ∀ t, ∃ n, t ≤ n ∧ tick n)
    (hstep : ∀ t, P t → Q (t + 1) ∨
      (P (t + 1) ∧ rank (t + 1) ≤ rank t ∧ (tick t → rank (t + 1) < rank t)))
    {t : ℕ} (h : P t) : ∃ n, t < n ∧ Q n := by
  induction hr : rank t using Nat.strong_induction_on generalizing t with
  | h r ih =>
    obtain ⟨n, htn, hn⟩ := hfair t
    obtain ⟨k, rfl⟩ := Nat.exists_eq_add_of_le htn
    rcases phase_lasts hstep h k with hq | ⟨hp, hle⟩
    · exact hq
    · rcases hstep _ hp with hq | ⟨hp', -, hlt⟩
      · exact ⟨_, by omega, hq⟩
      · obtain ⟨m, hm, hq⟩ := ih (rank (t + k + 1)) (by have := hlt hn; omega) hp' rfl
        exact ⟨m, by omega, hq⟩

/-! ### Ticks -/

section Ticks

variable {tick : ℕ → Prop} {α : Type*} {g : ℕ → α}

theorem infinite_of_fair (hfair : ∀ t, ∃ n, t ≤ n ∧ tick n) : (Set.ofPred tick).Infinite := by
  rw [Set.infinite_iff_exists_gt]
  intro t
  obtain ⟨n, hn, htick⟩ := hfair (t + 1)
  exact ⟨n, htick, hn⟩

/-- Every tick has a number, and a later tick a higher one. -/
theorem nth_of_tick (hfair : ∀ t, ∃ n, t ≤ n ∧ tick n) {u n : ℕ} (hu : tick u)
    (hle : Nat.nth tick n ≤ u) : ∃ m, n ≤ m ∧ Nat.nth tick m = u := by
  classical
  have hm := Nat.nth_count hu
  refine ⟨Nat.count tick u, ?_, hm⟩
  rw [← hm] at hle
  exact (Nat.nth_le_nth (infinite_of_fair hfair)).1 hle

/-- What moves only with the ticks stays from one tick to the next. -/
theorem hold_between (hold : ∀ t, ¬ tick t → g (t + 1) = g t) {n t : ℕ} (h : Nat.nth tick n < t)
    (hle : t ≤ Nat.nth tick (n + 1)) : g t = g (Nat.nth tick n + 1) := by
  induction t, h using Nat.le_induction with
  | base => rfl
  | succ t ht ih =>
    have hno : ¬ tick t := by
      intro htick
      have := Nat.le_nth_of_lt_nth_succ hle htick
      omega
    rw [hold t hno, ih (by omega)]

/-- And until the first. -/
theorem hold_before (hold : ∀ t, ¬ tick t → g (t + 1) = g t) :
    ∀ {t}, t ≤ Nat.nth tick 0 → g t = g 0
  | 0, _ => rfl
  | t + 1, h => by
    have hno : ¬ tick t := by
      rw [Nat.nth_zero] at h
      exact Nat.notMem_of_lt_sInf h
    rw [hold t hno, hold_before hold (by omega)]

end Ticks

end DsdOrsoc.Schemes
