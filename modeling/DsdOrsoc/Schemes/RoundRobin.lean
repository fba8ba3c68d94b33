import Mathlib.Tactic

/-! Round-robin grants over the `2 ^ w` ports of a `w`-bit grant register. The holder keeps the
    grant while it requests; afterwards the ports behind it are looked at in cyclic order, and
    without any request the grant is parked. Seen from a waiting port every hand-over lowers its
    DISTANCE from the holder, so it waits for finitely many of them. -/

namespace DsdOrsoc.Schemes.RoundRobin

variable {w : ℕ}

/-- The ports behind `s`, in the order in which they are looked at. -/
def behind (s : BitVec w) : List (BitVec w) :=
  (List.range (2 ^ w - 1)).map fun i => s + BitVec.ofNat w (i + 1)

/-- The next holder of the grant. -/
def grant (req : BitVec w → Bool) (s : BitVec w) : BitVec w :=
  if req s then s else ((behind s).find? req).getD s

/-- How many ports behind the holder a port comes. -/
def dist (s m : BitVec w) : ℕ := (m - s).toNat

/-- KEEP: the holder keeps the grant while it requests. -/
theorem grant_of_req {req : BitVec w → Bool} {s : BitVec w} (h : req s = true) : grant req s = s :=
  if_pos h

/-- A waiting port is behind the holder. -/
theorem dist_pos {req : BitVec w → Bool} {s m : BitVec w} (hs : req s = false)
    (hm : req m = true) : 0 < dist s m := by
  rw [Nat.pos_iff_ne_zero]
  intro h
  have hz : m - s = 0#w := BitVec.eq_of_toNat_eq (by simpa [dist] using h)
  rw [BitVec.sub_eq_iff_eq_add, BitVec.zero_add] at hz
  rw [hz, hs] at hm
  cases hm

/-- The grant passes to a requesting port that is no further behind than a given one. -/
theorem grant_pass {req : BitVec w → Bool} {s m : BitVec w} (hs : req s = false)
    (hm : req m = true) :
    ∃ i < dist s m, grant req s = s + BitVec.ofNat w (i + 1) ∧ req (grant req s) = true := by
  have h0 := dist_pos hs hm
  have hlt : dist s m < 2 ^ w := (m - s).isLt
  have hcand : req (s + BitVec.ofNat w (dist s m - 1 + 1)) = true := by
    rw [Nat.sub_add_cancel h0, dist, BitVec.ofNat_toNat, BitVec.setWidth_eq, BitVec.add_comm,
      BitVec.sub_add_cancel]
    exact hm
  have hfind : (List.range (2 ^ w - 1)).find?
      (req ∘ fun i => s + BitVec.ofNat w (i + 1)) ≠ none := by
    intro h
    rw [List.find?_eq_none] at h
    exact h (dist s m - 1) (List.mem_range.2 (by omega)) hcand
  obtain ⟨i, hi⟩ := Option.ne_none_iff_exists'.1 hfind
  have hgrant : grant req s = s + BitVec.ofNat w (i + 1) := by
    rw [grant, if_neg (by simp [hs]), behind, List.find?_map, hi]
    rfl
  rw [List.find?_range_eq_some] at hi
  refine ⟨i, ?_, hgrant, ?_⟩
  · by_contra h
    have := hi.2.2 (dist s m - 1) (by omega)
    simp [Function.comp, hcand] at this
  · rw [hgrant]
    exact hi.1

/-- PASS: a waiting port comes nearer when the holder stops requesting. -/
theorem dist_grant_lt {req : BitVec w → Bool} {s m : BitVec w} (hs : req s = false)
    (hm : req m = true) : dist (grant req s) m < dist s m := by
  obtain ⟨i, hi, hgrant, -⟩ := grant_pass hs hm
  have hd : (m - s).toNat = dist s m := rfl
  have hlt : dist s m < 2 ^ w := (m - s).isLt
  have hin : (BitVec.ofNat w (i + 1)).toNat = i + 1 := by
    rw [BitVec.toNat_ofNat]
    exact Nat.mod_eq_of_lt (by omega)
  rw [hgrant, dist, ← BitVec.sub_sub, BitVec.toNat_sub_of_le (by rw [BitVec.le_def, hin]; omega),
    hin, hd]
  omega

/-- A waiting port never falls back. -/
theorem dist_grant_le {req : BitVec w → Bool} (s : BitVec w) {m : BitVec w} (hm : req m = true) :
    dist (grant req s) m ≤ dist s m := by
  cases hs : req s with
  | true => rw [grant_of_req hs]
  | false => exact (dist_grant_lt hs hm).le

/-- ORDER: the grant goes forward, and at most to a port that requests. -/
theorem dist_holder_le {req : BitVec w → Bool} (s : BitVec w) {m : BitVec w} (hm : req m = true) :
    dist s (grant req s) ≤ dist s m := by
  cases hs : req s with
  | true =>
    rw [grant_of_req hs, dist, BitVec.sub_self]
    exact Nat.zero_le _
  | false =>
    obtain ⟨i, hi, hgrant, -⟩ := grant_pass hs hm
    rw [hgrant, dist, BitVec.add_comm, BitVec.add_sub_cancel, BitVec.toNat_ofNat]
    exact (Nat.mod_le _ _).trans hi

/-- Ports at the same distance are the same. -/
theorem eq_of_dist_eq {s s' m : BitVec w} (h : dist s m = dist s' m) : s = s' :=
  (BitVec.sub_right_inj m).1 (BitVec.eq_of_toNat_eq h)

/-- With a request anywhere, the next holder is a requesting port. -/
theorem req_grant {req : BitVec w → Bool} {m : BitVec w} (s : BitVec w) (hm : req m = true) :
    req (grant req s) = true := by
  cases hs : req s with
  | true => rwa [grant_of_req hs]
  | false =>
    obtain ⟨i, -, -, hg⟩ := grant_pass hs hm
    exact hg

/-- PARK: a grant that nobody asks for stays where it is. -/
theorem req_grant_or_park (req : BitVec w → Bool) (s : BitVec w) :
    req (grant req s) = true ∨ grant req s = s := by
  cases hf : (behind s).find? req with
  | none =>
    right
    simp [grant, hf]
  | some m => exact .inl (req_grant s (List.find?_some hf))

end DsdOrsoc.Schemes.RoundRobin
