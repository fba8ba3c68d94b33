import DsdOrsoc.Or1200.Amultp2
import DsdOrsoc.Or1200.MultMac
import DsdOrsoc.Schemes.Machine

/-! The netlist multiplier is the one that the multiply unit has been modelled with: two cycles
    after its operands it has their signed product. Three parts carry this:

        Booth coder    the 576 bits, in their columns, stand for X·Y + 2^64
        Wallace tree   sum and carry stand for the same number, one cycle later
        adder          adds them modulo 2^64 -/

namespace DsdOrsoc.Or1200.Amultp2
open Schemes CarrySave PrefixAdder

/-! ### The tree -/

/-- A row of the Booth coder: two bits in its first column, one in each of the others. -/
def rowColumns : List ℕ → List (List ℕ)
  | a :: b :: l => [a, b] :: l.map ([·])
  | _ => []

/-- The constant bits are in column 33 and in the even columns behind it. -/
def onesColumns : List (List ℕ) :=
  List.replicate 33 [] ++ [305] :: ones.tail.flatMap fun n => [[n], []]

/-- The bits of `SUMMAND` in their columns. -/
def summandColumns : List (List ℕ) := merge (stack (rows.map rowColumns)) onesColumns

/-- The tree with its inputs and outputs. -/
def tree : List Column :=
  (summandColumns.zip columns).zipIdx.map fun k =>
    ⟨k.1.1, k.1.2, if k.2 = 0 then [sum 0] else [sum k.2, carry (k.2 - 1)]⟩

theorem tree_checked : check tree [] = true := by decide +kernel

theorem tree_ordered : ordered (2 ^ 576 - 1) columns.flatten = true := by decide +kernel

theorem summand_fresh : fresh 0 (rows.flatten ++ ones) = true := by decide +kernel

/-! ### The values of the bits -/

theorem lookup_of_mem {l : List (ℕ × Bool)} (hn : (l.map (·.1)).Nodup) {n : ℕ} {b : Bool}
    (h : (n, b) ∈ l) : l.lookup n = some b := by
  induction l with
  | nil => cases h
  | cons x l ih =>
    rw [List.map_cons, List.nodup_cons] at hn
    rcases List.mem_cons.1 h with rfl | h
    · simp
    · have hne : n ≠ x.1 := by
        rintro rfl
        exact hn.1 (List.mem_map.2 ⟨_, h, rfl⟩)
      rw [List.lookup_cons, beq_false_of_ne hne]
      exact ih hn.2 h

section Summand

variable (opa opb : ℕ → Bool)

theorem rowBits_length (i : ℕ) : (rowBits opa opb i).length = 35 := by simp [rowBits]

theorem rows_length : ∀ r ∈ rows, r.length = 35 := by decide

theorem boothcoder_keys : (boothcoder opa opb).map (·.1) = rows.flatten ++ ones := by
  have hrow : ∀ r ∈ rows.zipIdx, (r.1.zip (rowBits opa opb r.2)).map (·.1) = r.1 := by
    intro r hr
    rw [← List.unzip_fst, List.unzip_zip_left]
    rw [rowBits_length, rows_length r.1 (List.fst_mem_of_mem_zipIdx hr)]
  have hrows : (rows.zipIdx.flatMap fun r => r.1) = rows.flatten := by
    rw [List.flatMap_def, List.zipIdx_map_fst]
  have hfirst : (rows.zipIdx.flatMap fun r => r.1.zip (rowBits opa opb r.2)).map (·.1) =
      rows.flatten := by
    rw [List.map_flatMap, ← hrows]
    exact List.flatMap_congr hrow
  have hsecond : (ones.map (·, true)).map (·.1) = ones := rfl
  rw [boothcoder, List.map_append, hfirst, hsecond]

theorem summand_of_mem {n : ℕ} {b : Bool} (h : (n, b) ∈ boothcoder opa opb) :
    summand opa opb n = b := by
  have hn : ((boothcoder opa opb).map (·.1)).Nodup := by
    rw [boothcoder_keys]
    exact (fresh_nodup summand_fresh).1
  rw [summand, lookup_of_mem hn h]
  rfl

theorem summand_row {r : List ℕ × ℕ} (hr : r ∈ rows.zipIdx) :
    r.1.map (summand opa opb) = rowBits opa opb r.2 := by
  have hlen := rows_length r.1 (List.fst_mem_of_mem_zipIdx hr)
  refine List.ext_getElem ?_ fun k hk hk' => ?_
  · rw [List.length_map, hlen, rowBits_length]
  · rw [List.getElem_map]
    refine summand_of_mem opa opb (List.mem_append_left _ (List.mem_flatMap.2 ⟨r, hr, ?_⟩))
    rw [List.length_map] at hk
    exact List.mem_iff_getElem.2 ⟨k, by rw [List.length_zip]; omega, List.getElem_zip⟩

theorem summand_one {n : ℕ} (hn : n ∈ ones) : summand opa opb n = true :=
  summand_of_mem opa opb (List.mem_append_right _ (List.mem_map.2 ⟨n, hn, rfl⟩))

end Summand

/-! ### Booth rows -/

section Booth

variable (opa opb : ℕ → Bool)

/-- The number of a row: two bits count one each, the others from two on. -/
def rowValue : List Bool → ℕ
  | a :: b :: l => a.toNat + b.toNat + 2 * (l.map Bool.toNat).foldr (fun x n => x + 2 * n) 0
  | _ => 0

theorem total_rowColumns (v : ℕ → Bool) (r : List ℕ) :
    total v (rowColumns r) = rowValue (r.map v) := by
  match r with
  | [] => rfl
  | [_] => rfl
  | a :: b :: l =>
    rw [rowColumns, total, total_eq_foldr, List.map_map]
    simp [rowValue, count, Function.comp_def]

/-- The multiplicand as a signed number. -/
def signedA : ℤ := num opa 32 - 2 ^ 32 * (opa 32).toNat

/-- The digit between -2 and 2 that a row multiplies with. -/
def digitValue (i : ℕ) : ℤ :=
  (below opb i).toNat + (opb (2 * i)).toNat - 2 * (opb (2 * i + 1)).toNat

theorem num_not (a : ℕ → Bool) (n : ℕ) : num a n + num (fun i => !a i) n + 1 = 2 ^ n := by
  induction n with
  | zero => simp [num]
  | succ n ih =>
    simp only [num, Finset.sum_range_succ] at ih ⊢
    rw [pow_succ]
    cases a n <;> simp <;> omega

theorem num_succ (a : ℕ → Bool) (n : ℕ) :
    num a n + 2 ^ n * (a n).toNat = (a 0).toNat + 2 * num (fun i => a (i + 1)) n := by
  have h := Finset.sum_range_succ (fun i => 2 ^ i * (a i).toNat) n
  rw [Finset.sum_range_succ', pow_zero, one_mul] at h
  rw [num, ← h, num, Finset.mul_sum, add_comm]
  congr 1
  refine Finset.sum_congr rfl fun i _ => ?_
  rw [pow_succ]
  ring

theorem foldr_bits (f : ℕ → Bool) (z : Bool) (m : ℕ) :
    ((((List.range m).map f) ++ [z]).map Bool.toNat).foldr (fun x n => x + 2 * n) 0 =
      num f m + 2 ^ m * z.toNat := by
  have hf : (List.range m).map f ++ [z] =
      (List.range (m + 1)).map fun i => if i < m then f i else z := by
    rw [List.range_succ, List.map_append, List.map_singleton, if_neg (lt_irrefl m)]
    congr 1
    exact List.map_congr_left fun i hi => (if_pos (List.mem_range.1 hi)).symm
  rw [hf, List.map_map, foldr_range, Finset.sum_range_succ, num]
  simp only [Function.comp_apply, lt_irrefl, if_false]
  congr 1
  exact Finset.sum_congr rfl fun i hi => by rw [if_pos (Finset.mem_range.1 hi)]

/-- The bits in the middle of a row are those of the multiplicand, shifted, inverted or neither. -/
theorem num_middle (a b c : Bool) :
    num (fun j => ppMiddle (decoder a b c).onepos (decoder a b c).oneneg (decoder a b c).twopos
        (decoder a b c).twoneg (opa j) (!opa j) (opa (j + 1)) (!opa (j + 1))) 32 =
      if (decoder a b c).twopos then num opa 32
      else if (decoder a b c).twoneg then num (fun j => !opa j) 32
      else if (decoder a b c).onepos then num (fun j => opa (j + 1)) 32
      else if (decoder a b c).oneneg then num (fun j => !opa (j + 1)) 32
      else 0 := by
  have h0 : num (fun _ => false) 32 = 0 := by simp [num]
  cases a <;> cases b <;> cases c <;> simp [decoder, ppMiddle, h0]

/-- A row is the multiplicand times its digit, made positive by a bit at its upper end. -/
theorem rowValue_rowBits (i : ℕ) :
    (rowValue (rowBits opa opb i) : ℤ) = 2 ^ 33 + digitValue opb i * signedA opa := by
  have h1 := num_succ opa 32
  have h2 := num_not opa 32
  have h3 := num_not (fun j => opa (j + 1)) 32
  rw [rowBits, List.cons_append, List.cons_append, rowValue, foldr_bits, digit, num_middle]
  unfold digitValue signedA
  generalize num (fun j => !opa (j + 1)) 32 = S' at h3 ⊢
  generalize num (fun j => opa (j + 1)) 32 = S at h1 h3 ⊢
  generalize num (fun j => !opa j) 32 = T' at h2 ⊢
  generalize num opa 32 = T at h1 h2 ⊢
  have hz : (opa 32).toNat + (!opa 32).toNat = 1 := by cases opa 32 <;> rfl
  have hl : (opa 0).toNat + (!opa 0).toNat = 1 := by cases opa 0 <;> rfl
  cases below opb i <;> cases opb (2 * i) <;> cases opb (2 * i + 1) <;>
    simp only [decoder, ppLow, ppHigh, rGate, Bool.and_true, Bool.and_false, Bool.true_and,
      Bool.false_and, Bool.or_true, Bool.or_false, Bool.false_or, Bool.not_true, Bool.not_false,
      Bool.not_not, Bool.toNat_true, Bool.toNat_false, Bool.false_eq_true, if_true, if_false] <;>
    omega

theorem digits_sum (m : ℕ) : ∑ i ∈ Finset.range m, (4 : ℤ) ^ i * digitValue opb i =
    num opb (2 * m) - 4 ^ m * (below opb m).toNat := by
  induction m with
  | zero => simp [num, below]
  | succ m ih =>
    have hb : below opb (m + 1) = opb (2 * m + 1) := by
      rw [below, if_neg (Nat.succ_ne_zero m)]
      rfl
    have hn : num opb (2 * (m + 1)) =
        num opb (2 * m) + 4 ^ m * (opb (2 * m)).toNat + 2 * 4 ^ m * (opb (2 * m + 1)).toNat := by
      rw [num, Nat.mul_succ, Finset.sum_range_succ, Finset.sum_range_succ, ← num, pow_succ,
        pow_mul]
      ring
    rw [Finset.sum_range_succ, ih, hb, hn, digitValue]
    push_cast
    ring

/-- The bits of the Booth coder, in their columns, stand for the product and one bit above it. -/
theorem total_summand : (total (summand opa opb) summandColumns : ℤ) =
    signedA opa * (num opb 32 - 2 ^ 32 * (opb 31).toNat) + 2 ^ 64 := by
  have hones : total (summand opa opb) onesColumns = total (fun _ => true) onesColumns := by
    refine total_congr fun l hl w hw => summand_one opa opb ?_
    revert w l
    decide
  have hval : total (fun _ => true) onesColumns = 2 ^ 64 - 2 ^ 33 * ((4 ^ 16 - 1) / 3) := by
    decide +kernel
  have hrows : total (summand opa opb) (stack (rows.map rowColumns)) =
      ∑ i ∈ Finset.range 16, 4 ^ i * rowValue (rowBits opa opb i) := by
    have hmap : (rows.map rowColumns).map (total (summand opa opb)) =
        (List.range 16).map fun i => rowValue (rowBits opa opb i) := by
      have hidx : rows.zipIdx.map (·.2) = List.range 16 := by
        rw [List.zipIdx_map_snd, List.range_eq_range']
        rfl
      rw [← hidx, List.map_map, List.map_map]
      conv_lhs => rw [← List.zipIdx_map_fst 0 rows, List.map_map]
      refine List.map_congr_left fun r hr => ?_
      rw [Function.comp_apply, Function.comp_apply, total_rowColumns, summand_row opa opb hr]
      rfl
    rw [total_stack, hmap, foldr_range]
  rw [summandColumns, total_merge, hrows, hones, hval]
  push_cast
  have hsum : ∑ i ∈ Finset.range 16, (4 : ℤ) ^ i * (rowValue (rowBits opa opb i) : ℤ) =
      2 ^ 33 * ∑ i ∈ Finset.range 16, (4 : ℤ) ^ i +
        signedA opa * ∑ i ∈ Finset.range 16, (4 : ℤ) ^ i * digitValue opb i := by
    rw [Finset.mul_sum, Finset.mul_sum, ← Finset.sum_add_distrib]
    refine Finset.sum_congr rfl fun i _ => ?_
    rw [rowValue_rowBits]
    ring
  rw [hsum, digits_sum]
  have hg : ∑ i ∈ Finset.range 16, (4 : ℤ) ^ i = (4 ^ 16 - 1) / 3 := by decide
  rw [hg]
  have hb : below opb 16 = opb 31 := rfl
  rw [hb]
  norm_num
  ring

end Booth

/-! ### The adder -/

section Adder

/-- Lines with the opposite polarity. -/
def Lines.inv (P G : ℕ → Bool) : Lines := ⟨fun j => !P j, fun i => !G i⟩

/-- An even stage takes inverted lines, an odd one gives them. -/
theorem dblc_even {k : ℕ} (hk : k % 2 = 0) (P G : ℕ → Bool) :
    dblc k (.inv P G) = ⟨levelP (2 ^ k) P, levelG (2 ^ k) P G⟩ := by
  unfold dblc
  simp only [hk, if_true, Lines.mk.injEq]
  refine ⟨?_, ?_⟩
  · funext j
    simp [block1, levelP, Lines.inv]
  · funext i
    unfold levelG
    split
    · simp [invblock, Lines.inv]
    · split <;> simp [block1, block1A, Lines.inv]

theorem dblc_odd {k : ℕ} (hk : k % 2 = 1) (P G : ℕ → Bool) :
    dblc k ⟨P, G⟩ = .inv (levelP (2 ^ k) P) (levelG (2 ^ k) P G) := by
  unfold dblc
  simp only [hk, one_ne_zero, if_false, Lines.inv, Lines.mk.injEq]
  refine ⟨?_, ?_⟩
  · funext j
    simp [block2, levelP]
  · funext i
    unfold levelG
    split
    · simp [invblock]
    · split <;> simp [block2, block2A]

variable (a b : ℕ → Bool) (cin : Bool)

/-- The tree of the adder has the inverted carries. -/
theorem dblctree_spans : ∃ P G, dblctree (prestage a b cin) = .inv P G ∧
    Spans cin (fun i => a i && b i) (fun i => a i || b i) 64 P G := by
  let P₀ : ℕ → Bool := fun i => a i || b i
  let G₀ : ℕ → Bool := fun i => i.casesOn cin fun i => a i && b i
  have hpre : prestage a b cin = .inv P₀ G₀ := by
    unfold prestage Lines.inv
    rw [Lines.mk.injEq]
    refine ⟨rfl, ?_⟩
    funext i
    cases i <;> rfl
  have h0 : Spans cin (fun i => a i && b i) (fun i => a i || b i) 1 P₀ G₀ :=
    spans_one rfl fun _ => rfl
  refine ⟨_, _, ?_, h0.level.level.level.level.level.level⟩
  rw [dblctree, hpre, dblc_even (k := 0) rfl, dblc_odd (k := 1) rfl, dblc_even (k := 2) rfl,
    dblc_odd (k := 3) rfl, dblc_even (k := 4) rfl, dblc_odd (k := 5) rfl]
  rfl

theorem dblcadder_add : num (dblcadder a b cin).1 64 + 2 ^ 64 * (dblcadder a b cin).2.toNat =
    num a 64 + num b 64 + cin.toNat := by
  obtain ⟨P, G, hl, hs⟩ := dblctree_spans a b cin
  rw [← num_add cin a b 64]
  have hsum : ∀ i, i < 64 → (dblcadder a b cin).1 i =
      ((a i ^^ b i) ^^ PrefixAdder.carry cin (fun i => a i && b i) (fun i => a i || b i) i) := by
    intro i hi
    simp only [dblcadder, hl, Lines.inv, xxor1, hs.carry i hi]
    cases a i <;> cases b i <;> simp
  have hout : (dblcadder a b cin).2 =
      PrefixAdder.carry cin (fun i => a i && b i) (fun i => a i || b i) (0 + 64) := by
    simp only [dblcadder, hl, Lines.inv, block1A]
    rw [carry_add, hs.gen 64 le_rfl, hs.prop, hs.carry 0 (by decide)]
    cases gen (fun i => a i && b i) (fun i => a i || b i) 0 64 <;> simp
  rw [hout, num_congr hsum]

end Adder

/-! ### The product -/

theorem ofBits_eq_num (f : ℕ → Bool) (n : ℕ) : Nat.ofBits (fun i : Fin n => f i) = num f n := by
  induction n generalizing f with
  | zero => simp [num]
  | succ n ih =>
    rw [Nat.ofBits_succ]
    have h := ih fun i => f (i + 1)
    have hs : Nat.ofBits ((fun i : Fin (n + 1) => f i) ∘ Fin.succ) =
        num (fun i => f (i + 1)) n := by
      rw [← h]
      rfl
    have hnum : num f (n + 1) = num f n + 2 ^ n * (f n).toNat := by
      rw [num, Finset.sum_range_succ, ← num]
    rw [hs, hnum, num_succ, add_comm]
    rfl

theorem num_getLsbD {w : ℕ} (x : BitVec w) : num x.getLsbD w = x.toNat := by
  rw [← ofBits_eq_num]
  exact (Nat.ofBits_testBit x.toNat w).trans (Nat.mod_eq_of_lt x.isLt)

theorem toInt_eq_num (x : BitVec 32) :
    (num x.getLsbD 32 : ℤ) - 2 ^ 32 * (x.getLsbD 31).toNat = x.toInt := by
  rw [num_getLsbD, BitVec.toInt_eq_msb_cond, BitVec.msb_eq_getLsbD_last]
  cases x.getLsbD 31 <;> simp

theorem signedA_opA (x : BitVec 32) : signedA (opA x) = x.toInt := by
  have hlow : num (opA x) 32 = num x.getLsbD 32 := num_congr fun i hi => by
    rw [opA, if_neg (by omega)]
  have hhigh : opA x 32 = x.getLsbD 31 := if_pos rfl
  rw [signedA, hlow, hhigh, toInt_eq_num]

/-- The bits of the Booth coder stand for the product. -/
theorem ofNat_total_summand (x y : BitVec 32) :
    BitVec.ofNat 64 (total (summand (opA x) y.getLsbD) summandColumns) = product x y := by
  have h := total_summand (opA x) y.getLsbD
  rw [signedA_opA, toInt_eq_num] at h
  rw [← BitVec.ofInt_natCast, h, product]
  apply BitVec.eq_of_toInt_eq
  rw [BitVec.toInt_ofInt, BitVec.toInt_mul, BitVec.toInt_signExtend_of_le (by decide),
    BitVec.toInt_signExtend_of_le (by decide)]
  exact Int.add_bmod_right _ _

theorem tree_ins : tree.map (·.ins) = summandColumns := by decide +kernel

/-- What column `c` leaves for the adder. -/
def outsAt (c : ℕ) : List ℕ := if c = 0 then [sum 0] else [sum c, carry (c - 1)]

theorem tree_outs : tree.map (·.outs) = (List.range 64).map outsAt := by decide +kernel

theorem tree_cells {k : Column} (hk : k ∈ tree) {c : Cell} (hc : c ∈ k.cells) :
    c ∈ columns.flatten := by
  obtain ⟨x, hx, rfl⟩ := List.mem_map.1 hk
  exact List.mem_flatten.2 ⟨_, (List.of_mem_zip (List.fst_mem_of_mem_zipIdx hx)).2, hc⟩

/-- The second operand of the adder. -/
def carries (v : ℕ → Bool) : ℕ → Bool
  | 0 => false
  | k + 1 => v (carry k)

theorem total_outs (v : ℕ → Bool) : total v (tree.map (·.outs)) =
    num (fun i => v (sum i)) 64 + num (carries v) 64 := by
  rw [tree_outs, total_eq_foldr, List.map_map, foldr_range, num, num, ← Finset.sum_add_distrib]
  refine Finset.sum_congr rfl fun c _ => ?_
  cases c with
  | zero => simp [count, outsAt, carries]
  | succ k =>
    simp [count, outsAt, carries]
    ring

/-- The inputs of the tree are not driven by it. -/
theorem summandColumns_lt : ∀ l ∈ summandColumns, ∀ n ∈ l, n < 576 := by decide +kernel

theorem settled_wallace (s : Amultp2) (x y : BitVec 32) :
    (∀ c ∈ columns.flatten, c.Settled adders s.wires (s.wallace x y)) ∧
      ∀ n, n < 576 → s.wallace x y n = summand (opA x) y.getLsbD n := by
  unfold wallace
  obtain ⟨hset, hkeep⟩ :=
    @settled_eval adders s.wires (summand (opA x) y.getLsbD) _ _ tree_ordered
  refine ⟨hset, fun n hn => hkeep n ?_⟩
  rw [Nat.testBit_two_pow_sub_one]
  exact decide_eq_true hn

/-- INVARIANT: the netlist holds the two products of the multiply unit, the first in its tree. -/
structure Matches (s : Amultp2) (p0 p1 : BitVec 64) : Prop where
  settled : ∃ last, ∀ c ∈ columns.flatten, c.Settled adders last s.wires
  p0 : BitVec.ofNat 64 (total s.wires summandColumns) = p0
  p1 : s.result = p1

theorem matches_reset : Matches reset 0 0 := by
  refine ⟨⟨fun _ => false, fun c _ => c.settled_rest⟩, ?_, rfl⟩
  change BitVec.ofNat 64 (total (fun _ => false) summandColumns) = 0
  have h0 : total (fun _ => false) summandColumns = 0 := by decide +kernel
  rw [h0]
  rfl

/-- STEP. -/
theorem Matches.clk {s : Amultp2} {p0 p1 : BitVec 64} (h : Matches s p0 p1) (x y : BitVec 32) :
    Matches (s.clk x y) (product x y) p0 := by
  obtain ⟨last, hlast⟩ := h.settled
  obtain ⟨hset, hkeep⟩ := settled_wallace s x y
  have hw : (s.clk x y).wires = s.wallace x y := by rw [Amultp2.clk]
  refine ⟨⟨s.wires, ?_⟩, ?_, ?_⟩
  · rw [hw]
    exact hset
  · have hins : total (s.wallace x y) summandColumns =
        total (summand (opA x) y.getLsbD) summandColumns :=
      total_congr fun l hl n hn => hkeep n (summandColumns_lt l hl n hn)
    rw [hw, hins, ofNat_total_summand]
  · have hsum : total s.wires summandColumns = total (s.wallace x y) (tree.map (·.outs)) := by
      have := total_of_check tree_checked (fun k hk c hc => hlast c (tree_cells hk hc))
        fun k hk c hc => hset c (tree_cells hk hc)
      rw [tree_ins] at this
      simpa [weight] using this
    have hcar : s.intCarry x y = carries (s.wallace x y) := by
      funext i
      cases i <;> rfl
    have hadd := dblcadder_add (fun i => s.wallace x y (sum i)) (s.intCarry x y) false
    rw [← h.p0, hsum, total_outs, ← hcar]
    have hres : (s.clk x y).result = BitVec.ofNat 64
        (num (dblcadder (fun i => s.wallace x y (sum i)) (s.intCarry x y) false).1 64) := by
      rw [← ofBits_eq_num]
      rfl
    rw [hres]
    apply BitVec.eq_of_toNat_eq
    rw [BitVec.toNat_ofNat, BitVec.toNat_ofNat]
    simp only [Bool.toNat_false] at hadd
    omega

end DsdOrsoc.Or1200.Amultp2

namespace DsdOrsoc.Or1200
open Schemes

/-! ### The multiply unit -/

/-- `or1200_mult_mac` with the netlist. Of `regs` the two stages of the generic multiplier take no
    part: the netlist drives `mul_prod`. -/
structure AsicMultMac where
  mult : Amultp2
  regs : MultMac

namespace AsicMultMac

def reset : AsicMultMac := ⟨.reset, .reset⟩

/-- One rising edge of the clock. -/
def clk (s : AsicMultMac) (i : MultMacIn) : AsicMultMac where
  mult := s.mult.clk i.x i.y
  regs := { s.regs with p1 := s.mult.result }.clk i

/-- From reset under any inputs. -/
def machine : Machine AsicMultMac MultMacIn where
  start s := s = reset
  legal _ _ := True
  step := clk

/-- The unit with the generic multiplier. -/
def generic : Machine MultMac MultMacIn where
  start s := s = .reset
  legal _ _ := True
  step := MultMac.clk

/-- The registers of the two units agree, apart from the stages of the multipliers. -/
structure Agrees (s : AsicMultMac) (g : MultMac) : Prop where
  mult : s.mult.Matches g.p0 g.p1
  regs : { s.regs with p0 := g.p0, p1 := g.p1 } = g

/-- STEP. -/
theorem Agrees.clk {s : AsicMultMac} {g : MultMac} (h : Agrees s g) (i : MultMacIn) :
    Agrees (s.clk i) (g.clk i) := by
  refine ⟨h.mult.clk i.x i.y, ?_⟩
  obtain ⟨mult, regs⟩ := s
  obtain ⟨p0, p1, m, f, c, r1, r2, r3, r, st⟩ := regs
  obtain ⟨p0', p1', m', f', c', r1', r2', r3', r', st'⟩ := g
  obtain ⟨rfl, rfl, rfl, rfl, rfl, rfl, rfl, rfl⟩ :
      m = m' ∧ f = f' ∧ c = c' ∧ r1 = r1' ∧ r2 = r2' ∧ r3 = r3' ∧ r = r' ∧ st = st' := by
    simpa using h.regs
  obtain rfl : p1' = mult.result := h.mult.p1.symm
  rfl

/-- The multiply unit with the netlist of this configuration goes, on any inputs and from reset,
    through the same states as with the generic multiplier, on which all that has been shown about
    multiplications, divisions and the accumulator rests. -/
theorem asic_unit_agrees (i : ℕ → MultMacIn) (t : ℕ) :
    let s := machine.trace reset i t
    let g := generic.trace MultMac.reset i t
    { s.regs with p0 := g.p0, p1 := g.p1 } = g ∧ s.mult.result = g.p1 := by
  have h : Agrees (machine.trace reset i t) (generic.trace MultMac.reset i t) := by
    induction t with
    | zero => exact ⟨Amultp2.matches_reset, rfl⟩
    | succ t ih => exact ih.clk (i t)
  exact ⟨h.regs, h.mult.p1⟩

end AsicMultMac

end DsdOrsoc.Or1200
