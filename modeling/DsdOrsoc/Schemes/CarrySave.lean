import Mathlib.Tactic

/-! Pipelined carry-save networks: full and half adders, latches and plain connections between
    numbered wires, listed so that a cell comes after those that drive its inputs.

        column c      a, b, c ──▶ FA ──▶ save      stays in column c
                                  └───▶ carry     goes to column c + 1

    Such a network is meant to add: the wires of column `c` count 2^c each, and every cell takes as
    much away as it puts back. Two Boolean checks on the list of cells make this a theorem.
    `ordered` asks that no cell drives a wire that has been read or driven before, so that all cells
    hold at the same time. `check` uses up the wires of the columns one after another; it knows for
    each wire whether it lies before its latch or behind it, so that only values of one cycle are
    added. -/

namespace DsdOrsoc.Schemes.CarrySave

/-- A full and a half adder; their outputs are save and carry. -/
structure Adders where
  full : Bool → Bool → Bool → Bool × Bool
  half : Bool → Bool → Bool × Bool
  full_add : ∀ a b c,
    (full a b c).1.toNat + 2 * (full a b c).2.toNat = a.toNat + b.toNat + c.toNat
  half_add : ∀ a b, (half a b).1.toNat + 2 * (half a b).2.toNat = a.toNat + b.toNat

inductive Cell where
  | fa (a b c save carry : ℕ)
  | ha (a b save carry : ℕ)
  | ff (din dout : ℕ)
  | wire (src dst : ℕ)
  | zero (dst : ℕ)

/-! ### Values of the wires -/

section Values

variable (G : Adders) (last v : ℕ → Bool)

/-- The wires after a cell has driven its outputs. A latch shows what its input was at the last
    clock edge, `last`. -/
def Cell.drive : Cell → ℕ → Bool
  | .fa a b c s y =>
    let o := G.full (v a) (v b) (v c)
    Function.update (Function.update v s o.1) y o.2
  | .ha a b s y =>
    let o := G.half (v a) (v b)
    Function.update (Function.update v s o.1) y o.2
  | .ff d q => Function.update v q (last d)
  | .wire d q => Function.update v q (v d)
  | .zero q => Function.update v q false

/-- The wires of a network in one cycle. -/
def eval (cells : List Cell) : ℕ → Bool := cells.foldl (fun v c => c.drive G last v) v

/-- The outputs of a cell are what its inputs ask for. -/
def Cell.Settled : Cell → Prop
  | .fa a b c s y => v s = (G.full (v a) (v b) (v c)).1 ∧ v y = (G.full (v a) (v b) (v c)).2
  | .ha a b s y => v s = (G.half (v a) (v b)).1 ∧ v y = (G.half (v a) (v b)).2
  | .ff d q => v q = last d
  | .wire d q => v q = v d
  | .zero q => v q = false

end Values

/-- The wires that a cell reads in the same cycle. -/
def Cell.reads : Cell → List ℕ
  | .fa a b c _ _ => [a, b, c]
  | .ha a b _ _ => [a, b]
  | .ff _ _ => []
  | .wire d _ => [d]
  | .zero _ => []

/-- The wires that a cell drives. -/
def Cell.drives : Cell → List ℕ
  | .fa _ _ _ s y => [s, y]
  | .ha _ _ s y => [s, y]
  | .ff _ q => [q]
  | .wire _ q => [q]
  | .zero q => [q]

/-- A set of wires as the bits of a number, with the wires of `l` added. -/
def mark (used : ℕ) (l : List ℕ) : ℕ := l.foldl (fun u w => u ||| 1 <<< w) used

/-- The wires of `l` are new, and no two are the same. -/
def fresh (used : ℕ) : List ℕ → Bool
  | [] => true
  | w :: l => !used.testBit w && fresh (mark used [w]) l

/-- Every wire is driven at most once, and not after it has been read. -/
def ordered (used : ℕ) : List Cell → Bool
  | [] => true
  | c :: cs => fresh (mark used c.reads) c.drives && ordered (mark used (c.reads ++ c.drives)) cs

theorem testBit_mark (used : ℕ) (l : List ℕ) (w : ℕ) :
    (mark used l).testBit w = (used.testBit w || decide (w ∈ l)) := by
  induction l generalizing used with
  | nil => simp [mark]
  | cons x l ih =>
    have hx : (used ||| 1 <<< x).testBit w = (used.testBit w || decide (w = x)) := by
      rw [Nat.testBit_or, Nat.one_shiftLeft, Nat.testBit_two_pow]
      simp [eq_comm]
    change (mark (used ||| 1 <<< x) l).testBit w = _
    rw [ih, hx]
    simp [Bool.or_assoc]

theorem fresh_nodup {used : ℕ} {l : List ℕ} (h : fresh used l = true) :
    l.Nodup ∧ ∀ w ∈ l, used.testBit w = false := by
  induction l generalizing used with
  | nil => exact ⟨List.nodup_nil, by simp⟩
  | cons x l ih =>
    rw [fresh, Bool.and_eq_true, Bool.not_eq_true'] at h
    obtain ⟨hn, hl⟩ := ih h.2
    have hnew : ∀ w ∈ l, used.testBit w = false ∧ w ≠ x := by
      intro w hw
      have := hl w hw
      rw [testBit_mark] at this
      simpa using this
    refine ⟨List.nodup_cons.2 ⟨fun hx => (hnew x hx).2 rfl, hn⟩, ?_⟩
    intro w hw
    rcases List.mem_cons.1 hw with rfl | hw
    · exact h.1
    · exact (hnew w hw).1

section Settled

variable {G : Adders} {last v : ℕ → Bool} {used : ℕ}

/-- A cell leaves the wires that it does not drive. -/
theorem Cell.drive_of_notMem {c : Cell} {w : ℕ} (h : w ∉ c.drives) :
    c.drive G last v w = v w := by
  cases c <;> simp_all [Cell.drive, Cell.drives]

theorem Cell.settled_drive {c : Cell} (hn : c.drives.Nodup) (hr : ∀ w ∈ c.drives, w ∉ c.reads) :
    c.Settled G last (c.drive G last v) := by
  have hkeep : ∀ w ∈ c.reads, c.drive G last v w = v w := fun w hw =>
    drive_of_notMem fun hd => hr w hd hw
  cases c with
  | fa a b c s y =>
    have hsy : s ≠ y := by simpa [Cell.drives] using hn
    rw [Settled, hkeep a (by simp [reads]), hkeep b (by simp [reads]), hkeep c (by simp [reads])]
    simp [drive, hsy]
  | ha a b s y =>
    have hsy : s ≠ y := by simpa [Cell.drives] using hn
    rw [Settled, hkeep a (by simp [reads]), hkeep b (by simp [reads])]
    simp [drive, hsy]
  | ff d q => simp [Settled, drive]
  | wire d q =>
    rw [Settled, hkeep d (by simp [reads])]
    simp [drive]
  | zero q => simp [Settled, drive]

/-- A cell only depends on the wires that it reads and drives. -/
theorem Cell.Settled.congr {c : Cell} {v' : ℕ → Bool} (h : c.Settled G last v)
    (hv : ∀ w ∈ c.reads ++ c.drives, v' w = v w) : c.Settled G last v' := by
  cases c <;> simp_all [Cell.Settled, Cell.reads, Cell.drives]

/-- All cells of an ordered network hold at the same time, and its inputs are left. -/
theorem settled_eval {cells : List Cell} (h : ordered used cells = true) :
    (∀ c ∈ cells, c.Settled G last (eval G last v cells)) ∧
      ∀ w, used.testBit w = true → eval G last v cells w = v w := by
  induction cells generalizing used v with
  | nil => exact ⟨by simp, fun _ _ => rfl⟩
  | cons c cs ih =>
    rw [ordered, Bool.and_eq_true] at h
    obtain ⟨hn, hnew⟩ := fresh_nodup h.1
    obtain ⟨hset, hkeep⟩ := ih (v := c.drive G last v) h.2
    have hnew' : ∀ w ∈ c.drives, used.testBit w = false ∧ w ∉ c.reads := by
      intro w hw
      have := hnew w hw
      rw [testBit_mark] at this
      simpa using this
    refine ⟨fun d hd => ?_, fun w hw => ?_⟩
    · rcases List.mem_cons.1 hd with rfl | hd
      · refine (Cell.settled_drive (v := v) hn fun w hw => (hnew' w hw).2).congr fun w hw => ?_
        refine hkeep w ?_
        rw [testBit_mark, decide_eq_true hw, Bool.or_true]
      · exact hset d hd
    · refine (hkeep w ?_).trans (Cell.drive_of_notMem fun hd => ?_)
      · rw [testBit_mark, hw, Bool.true_or]
      · rw [(hnew' w hd).1] at hw
        cases hw

theorem eq_false_of_add_zero {x y : Bool} (h : x.toNat + 2 * y.toNat = 0) :
    x = false ∧ y = false := by
  cases x <;> cases y <;> simp_all

/-- A network at rest. -/
theorem Cell.settled_rest (c : Cell) : c.Settled G (fun _ => false) fun _ => false := by
  cases c with
  | fa =>
    obtain ⟨h1, h2⟩ := eq_false_of_add_zero (G.full_add false false false)
    exact ⟨h1.symm, h2.symm⟩
  | ha =>
    obtain ⟨h1, h2⟩ := eq_false_of_add_zero (G.half_add false false)
    exact ⟨h1.symm, h2.symm⟩
  | ff => rfl
  | wire => rfl
  | zero => rfl

end Settled

/-! ### Columns -/

/-- The wires that are still to be used: those of this column and the carries into the next. A wire
    is tagged with `true` behind its latch. -/
structure Front where
  cur : List (Bool × ℕ)
  nxt : List (Bool × ℕ)

def take (x : Bool × ℕ) : List (Bool × ℕ) → Option (List (Bool × ℕ))
  | [] => none
  | y :: l => if y = x then some l else (take x l).map (y :: ·)

def takeAll : List (Bool × ℕ) → List (Bool × ℕ) → Option (List (Bool × ℕ))
  | [], l => some l
  | x :: xs, l => (take x l).bind (takeAll xs)

/-- A cell uses up its inputs and adds its outputs. -/
def Cell.pass (F : Front) : Cell → Option Front
  | .fa a b c s y =>
    let g := F.cur.contains (true, a)
    (takeAll [(g, a), (g, b), (g, c)] F.cur).map fun l => ⟨(g, s) :: l, (g, y) :: F.nxt⟩
  | .ha a b s y =>
    let g := F.cur.contains (true, a)
    (takeAll [(g, a), (g, b)] F.cur).map fun l => ⟨(g, s) :: l, (g, y) :: F.nxt⟩
  | .ff d q => (take (false, d) F.cur).map fun l => ⟨(true, q) :: l, F.nxt⟩
  | .wire d q =>
    let g := F.cur.contains (true, d)
    (take (g, d) F.cur).map fun l => ⟨(g, q) :: l, F.nxt⟩
  | .zero q => some ⟨F.cur, (true, q) :: F.nxt⟩

def passAll : Front → List Cell → Option Front
  | F, [] => some F
  | F, c :: cs => (c.pass F).bind fun F => passAll F cs

/-- A column: what comes in from outside, its cells, and what is left over for the outside. -/
structure Column where
  ins : List ℕ
  cells : List Cell
  outs : List ℕ

/-- Each column uses up its inputs and the carries of the one before. -/
def check : List Column → List (Bool × ℕ) → Bool
  | [], carries => carries.isEmpty
  | k :: ks, carries =>
    match passAll ⟨k.ins.map (false, ·) ++ carries, []⟩ k.cells with
    | none => false
    | some F => F.cur.isPerm (k.outs.map (true, ·)) && check ks F.nxt

/-- The number of wires in `l` that are set. -/
def count (v : ℕ → Bool) (l : List ℕ) : ℕ := (l.map fun w => (v w).toNat).sum

/-- The number that columns of wires stand for. -/
def total (v : ℕ → Bool) : List (List ℕ) → ℕ
  | [] => 0
  | l :: ls => count v l + 2 * total v ls

section Sums

variable {G : Adders} (last v v' : ℕ → Bool)

/-- The tagged wires that are set: in the cycle `v` before the latches, in the next, `v'`,
    behind. -/
def weight (l : List (Bool × ℕ)) : ℕ :=
  (l.map fun x => (if x.1 then v' x.2 else v x.2).toNat).sum

variable {last v v'}

theorem take_weight {x : Bool × ℕ} {l l' : List (Bool × ℕ)} (h : take x l = some l') :
    weight v v' l = weight v v' [x] + weight v v' l' := by
  induction l generalizing l' with
  | nil => cases h
  | cons y l ih =>
    rw [take] at h
    split at h
    · next hy =>
      obtain rfl := Option.some.inj h
      simp [weight, hy]
    · obtain ⟨l'', hl, rfl⟩ := Option.map_eq_some_iff.1 h
      have := ih hl
      simp only [weight, List.map_cons, List.sum_cons] at this ⊢
      omega

theorem takeAll_weight {xs l l' : List (Bool × ℕ)} (h : takeAll xs l = some l') :
    weight v v' l = weight v v' xs + weight v v' l' := by
  induction xs generalizing l with
  | nil =>
    obtain rfl := Option.some.inj h
    simp [weight]
  | cons x xs ih =>
    obtain ⟨l'', hx, hxs⟩ := Option.bind_eq_some_iff.1 h
    rw [take_weight hx, ih hxs]
    simp only [weight, List.map_cons, List.sum_cons, List.map_nil, List.sum_nil]
    omega

/-- STEP: a cell keeps the number that the wires stand for. -/
theorem Cell.pass_weight {c : Cell} {F F' : Front} (h : c.pass F = some F')
    (hv : c.Settled G last v) (hv' : c.Settled G v v') :
    weight v v' F.cur + 2 * weight v v' F.nxt = weight v v' F'.cur + 2 * weight v v' F'.nxt := by
  cases c with
  | fa a b c s y =>
    obtain ⟨l, hl, rfl⟩ := Option.map_eq_some_iff.1 h
    rw [takeAll_weight hl]
    cases F.cur.contains (true, a)
    · have := G.full_add (v a) (v b) (v c)
      rw [← hv.1, ← hv.2] at this
      simp [weight]
      omega
    · have := G.full_add (v' a) (v' b) (v' c)
      rw [← hv'.1, ← hv'.2] at this
      simp [weight]
      omega
  | ha a b s y =>
    obtain ⟨l, hl, rfl⟩ := Option.map_eq_some_iff.1 h
    rw [takeAll_weight hl]
    cases F.cur.contains (true, a)
    · have := G.half_add (v a) (v b)
      rw [← hv.1, ← hv.2] at this
      simp [weight]
      omega
    · have := G.half_add (v' a) (v' b)
      rw [← hv'.1, ← hv'.2] at this
      simp [weight]
      omega
  | ff d q =>
    obtain ⟨l, hl, rfl⟩ := Option.map_eq_some_iff.1 h
    have hq : v' q = v d := hv'
    rw [take_weight hl]
    simp [weight, hq]
  | wire d q =>
    obtain ⟨l, hl, rfl⟩ := Option.map_eq_some_iff.1 h
    have hq : v q = v d := hv
    have hq' : v' q = v' d := hv'
    rw [take_weight hl]
    cases F.cur.contains (true, d) <;> simp [weight, hq, hq']
  | zero q =>
    obtain rfl := Option.some.inj h
    have hq : v' q = false := hv'
    simp [weight, hq]

/-- RUN: so do the cells of a column. -/
theorem passAll_weight {cells : List Cell} {F F' : Front} (h : passAll F cells = some F')
    (hv : ∀ c ∈ cells, c.Settled G last v) (hv' : ∀ c ∈ cells, c.Settled G v v') :
    weight v v' F.cur + 2 * weight v v' F.nxt = weight v v' F'.cur + 2 * weight v v' F'.nxt := by
  induction cells generalizing F with
  | nil =>
    obtain rfl := Option.some.inj h
    rfl
  | cons c cs ih =>
    obtain ⟨F₁, hc, hcs⟩ := Option.bind_eq_some_iff.1 h
    rw [Cell.pass_weight hc (hv c List.mem_cons_self) (hv' c List.mem_cons_self)]
    exact ih hcs (fun d hd => hv d (List.mem_cons_of_mem _ hd))
      fun d hd => hv' d (List.mem_cons_of_mem _ hd)

theorem weight_append (l l' : List (Bool × ℕ)) :
    weight v v' (l ++ l') = weight v v' l + weight v v' l' := by
  simp [weight]

theorem weight_tag (l : List ℕ) :
    weight v v' (l.map (false, ·)) = count v l ∧ weight v v' (l.map (true, ·)) = count v' l := by
  constructor <;> simp [weight, count, Function.comp_def]

/-- The outputs of a checked network stand, one cycle later, for the same number as its inputs. -/
theorem total_of_check {ks : List Column} {carries : List (Bool × ℕ)}
    (h : check ks carries = true) (hv : ∀ k ∈ ks, ∀ c ∈ k.cells, c.Settled G last v)
    (hv' : ∀ k ∈ ks, ∀ c ∈ k.cells, c.Settled G v v') :
    weight v v' carries + total v (ks.map (·.ins)) = total v' (ks.map (·.outs)) := by
  induction ks generalizing carries with
  | nil =>
    rw [check, List.isEmpty_iff] at h
    simp [h, weight, total]
  | cons k ks ih =>
    rw [check] at h
    split at h
    · cases h
    · next F hF =>
      rw [Bool.and_eq_true, List.isPerm_iff] at h
      have hcol := passAll_weight hF (hv k List.mem_cons_self) (hv' k List.mem_cons_self)
      have hrest := ih h.2 (fun k' hk => hv k' (List.mem_cons_of_mem _ hk))
        fun k' hk => hv' k' (List.mem_cons_of_mem _ hk)
      have hout : weight v v' F.cur = count v' k.outs := by
        rw [← (weight_tag (v := v) k.outs).2]
        exact (h.1.map _).sum_eq
      have hnil : weight v v' [] = 0 := rfl
      rw [weight_append, (weight_tag k.ins).1, hout, hnil] at hcol
      simp only [List.map_cons, total]
      omega

end Sums

theorem total_congr {v v' : ℕ → Bool} {ls : List (List ℕ)}
    (h : ∀ l ∈ ls, ∀ w ∈ l, v w = v' w) : total v ls = total v' ls := by
  induction ls with
  | nil => rfl
  | cons l ls ih =>
    have hl : count v l = count v' l := by
      unfold count
      rw [List.map_congr_left fun w hw => congrArg Bool.toNat (h l List.mem_cons_self w hw)]
    rw [total, total, hl, ih fun l' hl' => h l' (List.mem_cons_of_mem _ hl')]

/-- A number from its digits, lowest first. -/
theorem foldr_range (q : ℕ) (f : ℕ → ℕ) (m : ℕ) :
    ((List.range m).map f).foldr (fun x n => x + q * n) 0 =
      ∑ i ∈ Finset.range m, q ^ i * f i := by
  induction m generalizing f with
  | zero => rfl
  | succ m ih =>
    rw [List.range_succ_eq_map, List.map_cons, List.map_map, List.foldr_cons, ih,
      Finset.sum_range_succ', Finset.mul_sum, add_comm, pow_zero, one_mul]
    congr 1
    refine Finset.sum_congr rfl fun i _ => ?_
    rw [pow_succ, Function.comp_apply, Nat.succ_eq_add_one]
    ring

theorem total_eq_foldr (v : ℕ → Bool) (ls : List (List ℕ)) :
    total v ls = (ls.map (count v)).foldr (fun x n => x + 2 * n) 0 := by
  induction ls with
  | nil => rfl
  | cons l ls ih => rw [total, ih, List.map_cons, List.foldr_cons]

/-! ### Rows -/

/-- The columns of two arrangements together. -/
def merge : List (List ℕ) → List (List ℕ) → List (List ℕ)
  | [], b => b
  | a, [] => a
  | x :: a, y :: b => (x ++ y) :: merge a b

/-- Rows of wires, each two columns further than the one before. -/
def stack : List (List (List ℕ)) → List (List ℕ)
  | [] => []
  | r :: rs => merge r ([] :: [] :: stack rs)

section Rows

variable (v : ℕ → Bool)

theorem total_merge (a b : List (List ℕ)) : total v (merge a b) = total v a + total v b := by
  induction a generalizing b with
  | nil => simp [merge, total]
  | cons x a ih =>
    cases b with
    | nil => simp [merge, total]
    | cons y b =>
      simp only [merge, total, ih, count, List.map_append, List.sum_append]
      ring

theorem total_stack (rs : List (List (List ℕ))) :
    total v (stack rs) = (rs.map (total v)).foldr (fun x n => x + 4 * n) 0 := by
  induction rs with
  | nil => rfl
  | cons r rs ih =>
    rw [stack, total_merge, List.map_cons, List.foldr_cons, ← ih]
    simp only [total, count, List.map_nil, List.sum_nil]
    ring

end Rows

end DsdOrsoc.Schemes.CarrySave
