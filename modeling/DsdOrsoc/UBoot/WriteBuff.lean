import DsdOrsoc.Schemes.Machine
import DsdOrsoc.Schemes.Progress
import DsdOrsoc.Schemes.NorFlash
import DsdOrsoc.FlashIf.Bridge

/-! `write_buff` of the flash driver `S29GL064A_04.c`: copy `cnt` bytes to the flash, a half-word at
    a time. One step of the model is one evaluation of the outer loop's head with the first part of
    its body, or one turn of the verify loop:

              cnt = 0                          returned 0
        check ──────▶   content & b ≠ b ─────▶ returned 2
          │ ▲
          ▼ │ content = b                      (dst, src_align, cnt) + (2, 2, -2)
        verify ⟲        timer > TOUT ────────▶ returned 1

    The byte counter goes down in steps of two and is compared with zero only. A half-word aligned
    source with an even count is copied as it should; with an odd count the loop does what it should
    only if it stops before, at a location that cannot take its value. -/

namespace DsdOrsoc.UBoot
open Schemes NorFlash

/-- The chip behind the bridge, which swaps the bytes of a half-word. Eleven address bits select the
    unlock cycles. -/
def wiring : Wiring (BitVec 31) 16 where
  first a := a.extractLsb' 0 11 == 0x555
  second a := a.extractLsb' 0 11 == 0x2AA
  command d := (FlashIf.swap d).extractLsb' 0 8
  dq7 d := (FlashIf.swap d).getLsbD 7

/-- `CONFIG_SYS_FLASH_BASE`. -/
def flashBase : BitVec 32 := 0xF0000000

def firstAddr : BitVec 32 := flashBase + (0x0555 <<< 1)

def secondAddr : BitVec 32 := flashBase + (0x02AA <<< 1)

/-- `CONFIG_FLASH_WRITE_TOUT`. -/
def flashWriteTout : BitVec 32 := 128 * 32

/-- The half-word of an address. -/
def halfword (a : BitVec 32) : BitVec 31 := a.extractLsb' 1 31

/-- The arguments of a call, with the memory that holds the source. -/
structure Call where
  ram : BitVec 32 → BitVec 8
  src : BitVec 32
  addr : BitVec 32
  cnt : BitVec 32

/-- Where the call is: at the head of a loop, back at its caller, or in the handler of an alignment
    exception, which does not return. -/
inductive Pc where
  | check | verify
  | returned (code : ℕ)
  | trapped
  deriving DecidableEq

/-- The variables of the call, the flash, and the source bytes that have been read so far. -/
structure WriteBuff where
  pc : Pc
  dst : BitVec 32
  srcAlign : BitVec 32
  b : BitVec 16
  cnt : BitVec 32
  flash : Chip (BitVec 31) 16
  loaded : List (BitVec 32)

/-- What the chip and the timer do in a step: whether a program operation is over, what a busy chip
    shows, and the value of `get_timer (start)`. -/
structure Poll where
  done : Bool
  status : BitVec 16
  timer : BitVec 32

namespace WriteBuff

variable (ram : BitVec 32 → BitVec 8) (s : WriteBuff) (i : Poll)

def readw : BitVec 16 × Chip (BitVec 31) 16 := s.flash.read i.done i.status (halfword s.dst)

def writew (d : BitVec 16) (a : BitVec 32) (flash : Chip (BitVec 31) 16) : Chip (BitVec 31) 16 :=
  flash.write wiring (halfword a) d

def step : WriteBuff :=
  match s.pc with
  | .check =>
    if s.cnt = 0 then { s with pc := .returned 0 }
    -- a half-word access to an odd address
    else if s.srcAlign.getLsbD 0 || s.dst.getLsbD 0 then { s with pc := .trapped }
    else
      let b := ram s.srcAlign ++ ram (s.srcAlign + 1)
      let loaded := s.loaded ++ [s.srcAlign, s.srcAlign + 1]
      let (content, flash) := s.readw i
      if content &&& b ≠ b then { s with pc := .returned 2, b, loaded, flash }
      else
        let flash := writew 0xaa00 firstAddr flash
        let flash := writew 0x5500 secondAddr flash
        let flash := writew 0xa000 firstAddr flash
        { s with pc := .verify, b, loaded, flash := writew b s.dst flash }
  | .verify =>
    let (content, flash) := s.readw i
    if content ≠ s.b then
      if i.timer > flashWriteTout then { s with pc := .returned 1, flash } else { s with flash }
    else
      { s with pc := .check, flash, dst := s.dst + 2, srcAlign := s.srcAlign + 2, cnt := s.cnt - 2 }
  | _ => s

/-- A call on a flash with any contents; a program operation is over before the timeout. -/
def machine (c : Call) : Machine WriteBuff Poll where
  start s := s.pc = .check ∧ s.dst = c.addr ∧ s.srcAlign = c.src ∧ s.cnt = c.cnt ∧
    s.flash.mode = .array ∧ s.flash.programs = [] ∧ s.loaded = []
  legal s i := s.flash.Polls wiring i.done i.status ∧
    (s.flash.isBusy = true → i.done = false → i.timer ≤ flashWriteTout)
  step := step c.ram

end WriteBuff

open WriteBuff

namespace Call

variable (c : Call) (mem : BitVec 31 → BitVec 16)

/-- The half-word that goes to the `k`-th location. -/
def value (k : ℕ) : BitVec 16 :=
  c.ram (c.src + BitVec.ofNat 32 (2 * k)) ++ c.ram (c.src + BitVec.ofNat 32 (2 * k) + 1)

def location (k : ℕ) : BitVec 31 := halfword (c.addr + BitVec.ofNat 32 (2 * k))

/-- The `k`-th location can be programmed to its value. -/
def Fits (k : ℕ) : Prop := mem (c.location k) &&& c.value k = c.value k

/-- The first location that cannot. -/
structure FirstBad (k : ℕ) : Prop where
  lt : 2 * k < c.cnt.toNat
  fits : ∀ j < k, c.Fits mem j
  bad : ¬ c.Fits mem k

end Call

/-- A byte of the flash, on a big-endian bus. -/
def byteAt (mem : BitVec 31 → BitVec 16) (a : BitVec 32) : BitVec 8 :=
  (mem (halfword a)).extractLsb' (if a.getLsbD 0 then 0 else 8) 8

section Correct

variable (c : Call) (R : (machine c).Run)

/-- Every program operation comes to its end. -/
def Completes : Prop :=
  ∀ t, (R.state t).flash.isBusy = true → ∃ u, t ≤ u ∧ (R.input u).done = true

/-- What a call should do: it returns, it copies the range if it returns 0, it programs and reads
    nothing else, and it returns 2 at the first location that cannot take its value, and only
    there. -/
structure Correct : Prop where
  returns : ∃ t code, (R.state t).pc = .returned code
  copied : ∀ t, (R.state t).pc = .returned 0 → ∀ k < c.cnt.toNat,
    byteAt (R.state t).flash.mem (c.addr + BitVec.ofNat 32 k) = c.ram (c.src + BitVec.ofNat 32 k)
  inRange : ∀ t a, halfword a ∈ (R.state t).flash.programs → (a - c.addr).toNat < c.cnt.toNat
  inSource : ∀ t a, a ∈ (R.state t).loaded → (a - c.src).toNat < c.cnt.toNat
  refused : ∀ k, c.FirstBad (R.state 0).flash.mem k → ∃ t, (R.state t).pc = .returned 2 ∧
    (R.state t).flash.programs = (List.range k).map c.location ∧
    c.location k ∉ (R.state t).flash.programs
  refusedOnly : ∀ t, (R.state t).pc = .returned 2 → ∃ k, c.FirstBad (R.state 0).flash.mem k

end Correct

/-! ### Addresses -/

theorem getLsbD_zero_iff (a : BitVec 32) : a.getLsbD 0 = false ↔ 2 ∣ a.toNat := by
  rw [← BitVec.testBit_toNat, Nat.testBit_zero, decide_eq_false_iff_not]
  omega

theorem toNat_halfword (a : BitVec 32) : (halfword a).toNat = a.toNat / 2 := by
  rw [halfword, BitVec.extractLsb'_toNat, Nat.shiftRight_eq_div_pow]
  have := a.isLt
  omega

theorem toNat_add_two_mul (a : BitVec 32) (k : ℕ) :
    (a + BitVec.ofNat 32 (2 * k)).toNat = (a.toNat + 2 * k) % 2 ^ 32 := by
  rw [BitVec.toNat_add, BitVec.toNat_ofNat]
  omega

theorem add_two_mul_succ (a : BitVec 32) (k : ℕ) :
    a + BitVec.ofNat 32 (2 * k) + 2 = a + BitVec.ofNat 32 (2 * (k + 1)) := by
  rw [BitVec.add_assoc, Nat.mul_succ, BitVec.ofNat_add]
  rfl

/-- Half-words of an even address stay at even addresses. -/
theorem even_add {a : BitVec 32} (h : 2 ∣ a.toNat) (k : ℕ) :
    (a + BitVec.ofNat 32 (2 * k)).getLsbD 0 = false := by
  rw [getLsbD_zero_iff, toNat_add_two_mul]
  omega

/-- The bytes of the `k`-th half-word from `a` on. -/
theorem halfword_eq_iff {a : BitVec 32} (h : 2 ∣ a.toNat) {k : ℕ} (hk : 2 * k < 2 ^ 32)
    (x : BitVec 32) :
    halfword x = halfword (a + BitVec.ofNat 32 (2 * k)) ↔
      (x - a).toNat = 2 * k ∨ (x - a).toNat = 2 * k + 1 := by
  have hx := x.isLt
  have ha := a.isLt
  rw [BitVec.toNat_eq, toNat_halfword, toNat_halfword, toNat_add_two_mul, BitVec.toNat_sub]
  omega

namespace Call

variable {c : Call}

/-- Different locations of a range are different half-words. -/
theorem location_injective (haddr : 2 ∣ c.addr.toNat) {j k : ℕ} (hj : 2 * j < 2 ^ 32)
    (hk : 2 * k < 2 ^ 32) (h : c.location j = c.location k) : j = k := by
  rw [location, location, BitVec.toNat_eq, toNat_halfword, toNat_halfword, toNat_add_two_mul,
    toNat_add_two_mul] at h
  omega

/-- The flash with the first `k` locations programmed. -/
def image (c : Call) (mem : BitVec 31 → BitVec 16) : ℕ → BitVec 31 → BitVec 16
  | 0 => mem
  | k + 1 => Function.update (c.image mem k) (c.location k) (c.value k)

variable (mem : BitVec 31 → BitVec 16)

theorem image_of_le (haddr : 2 ∣ c.addr.toNat) {j : ℕ} (hj : 2 * j < 2 ^ 32) :
    ∀ {k}, k ≤ j → c.image mem k (c.location j) = mem (c.location j)
  | 0, _ => rfl
  | k + 1, hk => by
    have hne : c.location j ≠ c.location k := by
      intro h
      have := location_injective haddr hj (by omega) h
      omega
    rw [image, Function.update_of_ne hne, image_of_le haddr hj (by omega)]

theorem image_of_lt (haddr : 2 ∣ c.addr.toNat) {j : ℕ} :
    ∀ {k}, j < k → 2 * k ≤ 2 ^ 32 → c.image mem k (c.location j) = c.value j
  | k + 1, hjk, hk => by
    rcases Nat.lt_succ_iff_lt_or_eq.1 hjk with hlt | rfl
    · have hne : c.location j ≠ c.location k := by
        intro h
        have := location_injective haddr (by omega) (by omega) h
        omega
      rw [image, Function.update_of_ne hne, image_of_lt haddr hlt (by omega)]
    · rw [image, Function.update_self]

/-- The addresses of the first `k` half-words of the source. -/
def sources (c : Call) : ℕ → List (BitVec 32)
  | 0 => []
  | k + 1 => c.sources k ++
    [c.src + BitVec.ofNat 32 (2 * k), c.src + BitVec.ofNat 32 (2 * k) + 1]

theorem mem_sources {a : BitVec 32} : ∀ {k}, 2 * k ≤ 2 ^ 32 → a ∈ c.sources k →
    (a - c.src).toNat < 2 * k
  | k + 1, hk, h => by
    have hs := c.src.isLt
    rw [sources, List.mem_append] at h
    rcases h with h | h
    · have := mem_sources (by omega) h
      omega
    · rcases List.mem_pair.1 h with rfl | rfl
      · rw [BitVec.toNat_sub, toNat_add_two_mul]
        omega
      · have h1 : (1 : BitVec 32).toNat = 1 := rfl
        rw [BitVec.toNat_sub, BitVec.toNat_add, toNat_add_two_mul, h1]
        omega

theorem mem_locations (haddr : 2 ∣ c.addr.toNat) {a : BitVec 32} {k : ℕ} (hk : 2 * k ≤ 2 ^ 32)
    (h : halfword a ∈ (List.range k).map c.location) : (a - c.addr).toNat < 2 * k := by
  obtain ⟨j, hj, hja⟩ := List.mem_map.1 h
  have hlt := List.mem_range.1 hj
  have := (halfword_eq_iff haddr (by omega) a).1 hja.symm
  omega

/-- The bytes of a programmed location are those of the source. -/
theorem byteAt_image (haddr : 2 ∣ c.addr.toNat) {n k : ℕ} (hk : k < 2 * n) (hn : 2 * n ≤ 2 ^ 32) :
    byteAt (c.image mem n) (c.addr + BitVec.ofNat 32 k) = c.ram (c.src + BitVec.ofNat 32 k) := by
  obtain ⟨j, rfl | rfl⟩ := Nat.even_or_odd' k
  · rw [byteAt, even_add haddr]
    change ((c.image mem n) (c.location j)).extractLsb' 8 8 = _
    rw [image_of_lt mem haddr (by omega) hn]
    exact BitVec.extractLsb'_append_eq_left
  · have hsucc (a : BitVec 32) :
        a + BitVec.ofNat 32 (2 * j + 1) = a + BitVec.ofNat 32 (2 * j) + 1 := by
      rw [BitVec.add_assoc, BitVec.ofNat_add]
      rfl
    have hnext : (c.addr + BitVec.ofNat 32 (2 * j + 1)).toNat =
        (c.addr + BitVec.ofNat 32 (2 * j)).toNat + 1 := by
      rw [toNat_add_two_mul, BitVec.toNat_add, BitVec.toNat_ofNat]
      omega
    have hhalf : halfword (c.addr + BitVec.ofNat 32 (2 * j + 1)) = c.location j := by
      rw [location, BitVec.toNat_eq, toNat_halfword, toNat_halfword, hnext, toNat_add_two_mul]
      omega
    have hodd : (c.addr + BitVec.ofNat 32 (2 * j + 1)).getLsbD 0 = true := by
      rw [← Bool.not_eq_false, getLsbD_zero_iff, hnext, toNat_add_two_mul]
      omega
    rw [byteAt, hodd, hhalf, image_of_lt mem haddr (by omega) hn, hsucc c.src]
    exact BitVec.extractLsb'_append_eq_right

end Call

/-! ### The loop -/

/-- What has been done so far: `p` locations are programmed, `l` half-words are loaded. -/
structure Seen (c : Call) (mem₀ : BitVec 31 → BitVec 16) (p l : ℕ) (s : WriteBuff) : Prop where
  mem : s.flash.mem = c.image mem₀ p
  programs : s.flash.programs = (List.range p).map c.location
  loaded : s.loaded = c.sources l
  fits : ∀ j < p, c.Fits mem₀ j

/-- The states of a call in its `k`-th turn. -/
inductive Turn (c : Call) (mem₀ : BitVec 31 → BitVec 16) (k : ℕ) (s : WriteBuff) : Prop
  | check (pc : s.pc = .check) (mode : s.flash.mode = .array) (seen : Seen c mem₀ k k s)
  | verify (pc : s.pc = .verify) (b : s.b = c.value k) (mode : s.flash.mode = .busy (c.value k))
      (lt : 2 * k < c.cnt.toNat) (seen : Seen c mem₀ (k + 1) (k + 1) s)
  | ok (pc : s.pc = .returned 0) (all : 2 * k = c.cnt.toNat) (seen : Seen c mem₀ k k s)
  | refused (pc : s.pc = .returned 2) (lt : 2 * k < c.cnt.toNat) (bad : ¬ c.Fits mem₀ k)
      (seen : Seen c mem₀ k (k + 1) s)

/-- INVARIANT: the variables of the `k`-th turn. -/
structure InTurn (c : Call) (mem₀ : BitVec 31 → BitVec 16) (k : ℕ) (s : WriteBuff) : Prop where
  dst : s.dst = c.addr + BitVec.ofNat 32 (2 * k)
  src : s.srcAlign = c.src + BitVec.ofNat 32 (2 * k)
  cnt : s.cnt.toNat + 2 * k = c.cnt.toNat
  turn : Turn c mem₀ k s

section Step

variable {c : Call} {mem₀ : BitVec 31 → BitVec 16} {k : ℕ} {s : WriteBuff} {i : Poll}

/-- One turn up to the program command. -/
theorem step_check {ram : BitVec 32 → BitVec 8} (hpc : s.pc = .check) (hcnt : s.cnt ≠ 0)
    (hsrc : s.srcAlign.getLsbD 0 = false) (hdst : s.dst.getLsbD 0 = false)
    (hmode : s.flash.mode = .array) {b : BitVec 16}
    (hb : b = ram s.srcAlign ++ ram (s.srcAlign + 1)) :
    s.step ram i =
      if s.flash.mem (halfword s.dst) &&& b ≠ b then
        { s with pc := .returned 2, b, loaded := s.loaded ++ [s.srcAlign, s.srcAlign + 1] }
      else
        { s with
          pc := .verify, b, loaded := s.loaded ++ [s.srcAlign, s.srcAlign + 1],
          flash :=
            { mode := .busy b,
              mem := Function.update s.flash.mem (halfword s.dst)
                (s.flash.mem (halfword s.dst) &&& b),
              programs := s.flash.programs ++ [halfword s.dst] } } := by
  have hfirst : wiring.first (halfword firstAddr) = true := by decide
  have hsecond : wiring.second (halfword secondAddr) = true := by decide
  have haa : wiring.command 0xaa00 = 0xAA := by decide
  have h55 : wiring.command 0x5500 = 0x55 := by decide
  have ha0 : wiring.command 0xa000 = 0xA0 := by decide
  have hprog := Chip.write_program hmode hfirst hsecond haa h55 ha0 (halfword s.dst) b
  simp only [step, hpc, hcnt, hsrc, hdst, Bool.or_self, if_false, readw,
    Chip.read_of_array hmode, ← hb, writew, hprog, Bool.false_eq_true]

/-- While the chip is busy nothing changes. -/
theorem step_verify_busy {ram : BitVec 32 → BitVec 8} (hpc : s.pc = .verify)
    (hmode : s.flash.mode = .busy s.b) (hl : (machine c).legal s i) (hdone : i.done = false) :
    s.step ram i = s := by
  have hread : s.readw i = (i.status, s.flash) := by
    rw [readw, Chip.read_of_busy hmode, hdone]
    rfl
  have htimer : ¬ i.timer > flashWriteTout := by
    have hle := hl.2 (by rw [Chip.isBusy, hmode]) hdone
    simpa using hle
  simp only [step, hpc, hread, hl.1.status_ne hmode hdone, ne_eq, not_false_eq_true, if_true,
    if_neg htimer]
  rw [← hpc]

/-- When it is done the call goes on to the next half-word. -/
theorem step_verify_done {ram : BitVec 32 → BitVec 8} (hpc : s.pc = .verify)
    (hmode : s.flash.mode = .busy s.b) (hmem : s.flash.mem (halfword s.dst) = s.b)
    (hdone : i.done = true) :
    s.step ram i =
      { s with
        pc := .check, flash := { s.flash with mode := .array }, dst := s.dst + 2,
        srcAlign := s.srcAlign + 2, cnt := s.cnt - 2 } := by
  have hread : s.readw i = (s.b, { s.flash with mode := .array }) := by
    rw [readw, Chip.read_of_busy hmode, hdone, if_pos rfl, hmem]
  simp only [step, hpc, hread, ne_eq, not_true_eq_false, if_false]

theorem InTurn.of_check (h : InTurn c mem₀ k s) (hpc : s.pc = .check) :
    s.flash.mode = .array ∧ Seen c mem₀ k k s := by
  cases h.turn with
  | check _ mode seen => exact ⟨mode, seen⟩
  | verify pc | ok pc | refused pc => simp [hpc] at pc

theorem InTurn.of_verify (h : InTurn c mem₀ k s) (hpc : s.pc = .verify) :
    s.b = c.value k ∧ s.flash.mode = .busy s.b ∧ 2 * k < c.cnt.toNat ∧
      Seen c mem₀ (k + 1) (k + 1) s := by
  cases h.turn with
  | verify _ b mode lt seen => exact ⟨b, b ▸ mode, lt, seen⟩
  | check pc | ok pc | refused pc => simp [hpc] at pc

theorem InTurn.of_returned (h : InTurn c mem₀ k s) {code : ℕ} (hpc : s.pc = .returned code) :
    (code = 0 ∧ 2 * k = c.cnt.toNat ∧ Seen c mem₀ k k s) ∨
      (code = 2 ∧ 2 * k < c.cnt.toNat ∧ ¬ c.Fits mem₀ k ∧ Seen c mem₀ k (k + 1) s) := by
  cases h.turn with
  | check pc | verify pc => simp [hpc] at pc
  | ok pc all seen => exact .inl ⟨by simpa [hpc] using pc, all, seen⟩
  | refused pc lt bad seen => exact .inr ⟨by simpa [hpc] using pc, lt, bad, seen⟩

/-- STEP: from the head of the loop. -/
theorem InTurn.check (haddr : 2 ∣ c.addr.toNat) (hsrc : c.cnt ≠ 0 → 2 ∣ c.src.toNat)
    (h : InTurn c mem₀ k s) (hpc : s.pc = .check) :
    InTurn c mem₀ k (s.step c.ram i) ∧ (s.step c.ram i).pc ≠ .check ∧
      (s.step c.ram i).cnt = s.cnt := by
  obtain ⟨hmode, hseen⟩ := h.of_check hpc
  have hbound := c.cnt.isLt
  have hk := h.cnt
  by_cases h0 : s.cnt = 0
  · have hstep : s.step c.ram i = { s with pc := .returned 0 } := by simp [step, hpc, h0]
    have hall : 2 * k = c.cnt.toNat := by
      rw [← h.cnt, h0]
      exact (Nat.zero_add _).symm
    rw [hstep]
    exact ⟨⟨h.dst, h.src, h.cnt, .ok rfl hall ⟨hseen.mem, hseen.programs, hseen.loaded,
      hseen.fits⟩⟩, by simp, rfl⟩
  · have hlt : 2 * k < c.cnt.toNat := by
      have : s.cnt.toNat ≠ 0 := fun hz => h0 (BitVec.eq_of_toNat_eq hz)
      omega
    have hb : c.value k = c.ram s.srcAlign ++ c.ram (s.srcAlign + 1) := by rw [h.src, Call.value]
    have hloc : halfword s.dst = c.location k := by rw [h.dst, Call.location]
    have hcontent : s.flash.mem (halfword s.dst) = mem₀ (c.location k) := by
      rw [hloc, hseen.mem, Call.image_of_le mem₀ haddr (by omega) le_rfl]
    have hloaded : s.loaded ++ [s.srcAlign, s.srcAlign + 1] = c.sources (k + 1) := by
      rw [hseen.loaded, h.src, Call.sources]
    have heven : 2 ∣ c.src.toNat := by
      refine hsrc fun hz => ?_
      rw [hz] at hlt
      exact Nat.not_lt_zero _ hlt
    rw [step_check hpc h0 (h.src ▸ even_add heven k) (h.dst ▸ even_add haddr k) hmode hb, hcontent]
    by_cases hfit : c.Fits mem₀ k
    · have hand : mem₀ (c.location k) &&& c.value k = c.value k := hfit
      rw [if_neg (not_not.2 hand), hand]
      refine ⟨⟨h.dst, h.src, h.cnt, .verify rfl rfl rfl hlt ⟨?_, ?_, hloaded, ?_⟩⟩, by simp, rfl⟩
      · rw [hloc, hseen.mem, Call.image]
      · rw [hloc, hseen.programs, List.range_succ, List.map_append]
        rfl
      · intro j hj
        rcases Nat.lt_succ_iff_lt_or_eq.1 hj with hj | rfl
        · exact hseen.fits j hj
        · exact hfit
    · have hand : mem₀ (c.location k) &&& c.value k ≠ c.value k := hfit
      rw [if_pos hand]
      exact ⟨⟨h.dst, h.src, h.cnt, .refused rfl hlt hfit ⟨hseen.mem, hseen.programs, hloaded,
        hseen.fits⟩⟩, by simp, rfl⟩

/-- STEP: from the verify loop, if the half-word is inside the range. -/
theorem InTurn.verify (h : InTurn c mem₀ k s) (hpc : s.pc = .verify)
    (hroom : 2 * k + 2 ≤ c.cnt.toNat) (hl : (machine c).legal s i) :
    if i.done then InTurn c mem₀ (k + 1) (s.step c.ram i) ∧ (s.step c.ram i).pc = .check ∧
        (s.step c.ram i).cnt.toNat + 2 = s.cnt.toNat
    else s.step c.ram i = s := by
  obtain ⟨hb, hmode, hlt, hseen⟩ := h.of_verify hpc
  have hk := h.cnt
  cases hdone : i.done with
  | false => exact step_verify_busy hpc hmode hl hdone
  | true =>
    have hmem : s.flash.mem (halfword s.dst) = s.b := by
      have hloc : halfword s.dst = c.location k := by rw [h.dst, Call.location]
      rw [hloc, hseen.mem, hb, Call.image, Function.update_self]
    have hsub : (s.cnt - 2).toNat + 2 = s.cnt.toNat := by
      rw [BitVec.toNat_sub_of_le (by rw [BitVec.le_def]; change 2 ≤ _; omega)]
      change s.cnt.toNat - 2 + 2 = _
      omega
    rw [if_pos rfl, step_verify_done hpc hmode hmem hdone]
    refine ⟨⟨?_, ?_, ?_, .check rfl rfl ⟨hseen.mem, hseen.programs, hseen.loaded, hseen.fits⟩⟩, rfl,
      hsub⟩
    · rw [← add_two_mul_succ, ← h.dst]
    · rw [← add_two_mul_succ, ← h.src]
    · change (s.cnt - 2).toNat + 2 * (k + 1) = _
      omega

/-- STEP. -/
theorem InTurn.step (haddr : 2 ∣ c.addr.toNat) (hsrc : c.cnt ≠ 0 → 2 ∣ c.src.toNat)
    (h : InTurn c mem₀ k s) (hroom : s.pc = .verify → 2 * k + 2 ≤ c.cnt.toNat)
    (hl : (machine c).legal s i) : ∃ j, InTurn c mem₀ j (s.step c.ram i) := by
  cases hpc : s.pc with
  | check => exact ⟨k, (h.check haddr hsrc hpc).1⟩
  | verify =>
    have hstep := h.verify hpc (hroom hpc) hl
    split at hstep
    · exact ⟨k + 1, hstep.1⟩
    · rw [hstep]
      exact ⟨k, h⟩
  | returned code | trapped =>
    have hstep : s.step c.ram i = s := by simp [WriteBuff.step, hpc]
    rw [hstep]
    exact ⟨k, h⟩

end Step

/-! ### Whole calls -/

section Whole

variable {c : Call} {R : (machine c).Run}

/-- No half-word is programmed across the end of the range. -/
def Room (R : (machine c).Run) : Prop :=
  ∀ t k, InTurn c (R.state 0).flash.mem k (R.state t) → (R.state t).pc = .verify →
    2 * k + 2 ≤ c.cnt.toNat

section Turns

variable (haddr : 2 ∣ c.addr.toNat) (hsrc : c.cnt ≠ 0 → 2 ∣ c.src.toNat) (hroom : Room R)
include haddr hsrc hroom

/-- RUN: the call is always in some turn. -/
theorem inTurn_run : ∀ t, ∃ k, InTurn c (R.state 0).flash.mem k (R.state t)
  | 0 => by
    obtain ⟨hpc, hdst, hs, hc, hmode, hprog, hload⟩ := R.start
    exact ⟨0, by rw [hdst]; exact (BitVec.add_zero _).symm,
      by rw [hs]; exact (BitVec.add_zero _).symm, by rw [hc, Nat.mul_zero, Nat.add_zero],
      .check hpc hmode ⟨rfl, hprog, hload, fun j hj => absurd hj (Nat.not_lt_zero j)⟩⟩
  | t + 1 => by
    obtain ⟨k, h⟩ := inTurn_run t
    rw [R.next t]
    exact h.step haddr hsrc (hroom t k h) (R.legal t)

omit haddr hsrc hroom in
/-- What is left to do: two steps for each half-word. -/
def rank (R : (machine c).Run) (t : ℕ) : ℕ :=
  (R.state t).cnt.toNat + if (R.state t).pc = .check then 1 else 0

/-- PROGRESS: the counter and the chip make the call return. -/
theorem returns_run (hR : Completes c R) : ∃ t code, (R.state t).pc = .returned code := by
  have hfair : ∀ t, ∃ u, t ≤ u ∧ ((R.state u).flash.isBusy = true → (R.input u).done = true) := by
    intro t
    by_cases hbusy : (R.state t).flash.isBusy = true
    · obtain ⟨u, htu, hdone⟩ := hR t hbusy
      exact ⟨u, htu, fun _ => hdone⟩
    · exact ⟨t, le_rfl, fun h => absurd h hbusy⟩
  have hstep : ∀ t, ((R.state t).pc = .check ∨ (R.state t).pc = .verify) →
      (∃ code, (R.state (t + 1)).pc = .returned code) ∨
        (((R.state (t + 1)).pc = .check ∨ (R.state (t + 1)).pc = .verify) ∧
          rank R (t + 1) ≤ rank R t ∧
          (((R.state t).flash.isBusy = true → (R.input t).done = true) →
            rank R (t + 1) < rank R t)) := by
    intro t ht
    obtain ⟨k, h⟩ := inTurn_run haddr hsrc hroom t
    have hnext : R.state (t + 1) = (R.state t).step c.ram (R.input t) := R.next t
    rcases ht with hpc | hpc
    · obtain ⟨h', hne, hc⟩ := h.check haddr hsrc (i := R.input t) hpc
      rw [← hnext] at h' hne hc
      cases h'.turn with
      | check pc => exact absurd pc hne
      | verify pc =>
        have hlt : rank R (t + 1) < rank R t := by simp [rank, pc, hpc, hc]
        exact .inr ⟨.inr pc, hlt.le, fun _ => hlt⟩
      | ok pc => exact .inl ⟨0, pc⟩
      | refused pc => exact .inl ⟨2, pc⟩
    · have hverify := h.verify hpc (hroom t k h hpc) (R.legal t)
      rw [← hnext] at hverify
      split at hverify
      · obtain ⟨-, hpc', hc⟩ := hverify
        have hlt : rank R (t + 1) < rank R t := by
          simp only [rank, hpc, hpc', if_true, reduceCtorEq, if_false]
          omega
        exact .inr ⟨.inl hpc', hlt.le, fun _ => hlt⟩
      · next hdone =>
        have hbusy : (R.state t).flash.isBusy = true := by
          rw [Chip.isBusy, (h.of_verify hpc).2.1]
        refine .inr ⟨.inr (hverify ▸ hpc), by rw [rank, rank, hverify], ?_⟩
        intro htick
        exact absurd (htick hbusy) hdone
  obtain ⟨n, -, hn⟩ := fair_phase_ends
    (P := fun t => (R.state t).pc = .check ∨ (R.state t).pc = .verify)
    (Q := fun t => ∃ code, (R.state t).pc = .returned code) (rank R) hfair hstep (.inl R.start.1)
  exact ⟨n, hn⟩

end Turns

/-! ### Calls that stay in the range -/

/-- The condition on the contents: the count is even, or a location inside the range stops the
    call. -/
def Call.Stays (c : Call) (mem : BitVec 31 → BitVec 16) : Prop :=
  2 ∣ c.cnt.toNat ∨ ∃ k, c.FirstBad mem k ∧ 2 * k + 2 ≤ c.cnt.toNat

/-- A half-word that such a call comes to is inside the range. -/
theorem Call.Stays.room {mem : BitVec 31 → BitVec 16} (h : c.Stays mem) {k : ℕ}
    (hk : 2 * k < c.cnt.toNat) (hfits : ∀ j < k, c.Fits mem j) : 2 * k + 2 ≤ c.cnt.toNat := by
  rcases h with heven | ⟨n, hn, hroom⟩
  · omega
  · rcases Nat.lt_or_ge n k with hnk | hkn
    · exact absurd (hfits n hnk) hn.bad
    · omega

theorem Call.Stays.run (h : c.Stays (R.state 0).flash.mem) : Room R := by
  intro t k hk hpc
  obtain ⟨-, -, hlt, hseen⟩ := hk.of_verify hpc
  exact h.room hlt fun j hj => hseen.fits j (by omega)

/-- The range bounds what has been done. -/
theorem InTurn.seen {mem : BitVec 31 → BitVec 16} (hs : c.Stays mem) {k : ℕ} {s : WriteBuff}
    (h : InTurn c mem k s) :
    ∃ p l, Seen c mem p l s ∧ 2 * p ≤ c.cnt.toNat ∧ 2 * l ≤ c.cnt.toNat := by
  have hk := h.cnt
  cases h.turn with
  | check _ _ seen => exact ⟨k, k, seen, by omega, by omega⟩
  | verify _ _ _ lt seen =>
    have hroom := hs.room lt fun j hj => seen.fits j (by omega)
    exact ⟨k + 1, k + 1, seen, by omega, by omega⟩
  | ok _ _ seen => exact ⟨k, k, seen, by omega, by omega⟩
  | refused _ lt _ seen =>
    have hroom := hs.room lt seen.fits
    exact ⟨k, k + 1, seen, by omega, by omega⟩

/-- The whole of such a call. -/
theorem correct_of_stays (haddr : 2 ∣ c.addr.toNat) (hsrc : c.cnt ≠ 0 → 2 ∣ c.src.toNat)
    (hs : c.Stays (R.state 0).flash.mem) (hR : Completes c R) : Correct c R := by
  have hrun := inTurn_run haddr hsrc hs.run
  have hbound := c.cnt.isLt
  have hreturns := returns_run haddr hsrc hs.run hR
  refine ⟨hreturns, ?_, ?_, ?_, ?_, ?_⟩
  · intro t hpc k hk
    obtain ⟨n, h⟩ := hrun t
    rcases h.of_returned hpc with ⟨-, hall, hseen⟩ | ⟨hcode, -⟩
    · rw [hseen.mem]
      exact Call.byteAt_image _ haddr (by omega) (by omega)
    · exact absurd hcode (by decide)
  · intro t a ha
    obtain ⟨n, h⟩ := hrun t
    obtain ⟨p, l, hseen, hp, -⟩ := h.seen hs
    rw [hseen.programs] at ha
    exact (Call.mem_locations haddr (by omega) ha).trans_le hp
  · intro t a ha
    obtain ⟨n, h⟩ := hrun t
    obtain ⟨p, l, hseen, -, hl⟩ := h.seen hs
    rw [hseen.loaded] at ha
    exact (Call.mem_sources (by omega) ha).trans_le hl
  · intro k hk
    obtain ⟨t, code, hpc⟩ := hreturns
    obtain ⟨j, h⟩ := hrun t
    have hlt := hk.lt
    rcases h.of_returned hpc with ⟨-, hall, hseen⟩ | ⟨rfl, -, hbad, hseen⟩
    · exact absurd (hseen.fits k (by omega)) hk.bad
    · obtain rfl : j = k := by
        rcases Nat.lt_trichotomy j k with hjk | hjk | hjk
        · exact absurd (hk.fits j hjk) hbad
        · exact hjk
        · exact absurd (hseen.fits k hjk) hk.bad
      refine ⟨t, hpc, hseen.programs, ?_⟩
      rw [hseen.programs]
      intro hmem
      obtain ⟨m, hm, hmj⟩ := List.mem_map.1 hmem
      have hlt' := List.mem_range.1 hm
      have := Call.location_injective haddr (by omega) (by omega) hmj
      omega
  · intro t hpc
    obtain ⟨k, h⟩ := hrun t
    rcases h.of_returned hpc with ⟨hcode, -⟩ | ⟨-, hlt, hbad, hseen⟩
    · exact absurd hcode (by decide)
    · exact ⟨k, hlt, hseen.fits, hbad⟩

/-! ### Calls that do not -/

/-- An odd source address stops the call at its first access. -/
theorem trapped_run (hcnt : c.cnt ≠ 0) (hsrc : ¬ 2 ∣ c.src.toNat) :
    ∀ t, (R.state (t + 1)).pc = .trapped
  | 0 => by
    obtain ⟨hpc, -, hs, hc, -⟩ := R.start
    have hodd : ((R.state 0).srcAlign.getLsbD 0 || (R.state 0).dst.getLsbD 0) = true := by
      rw [hs, Bool.or_eq_true, ← Bool.not_eq_false, getLsbD_zero_iff]
      exact .inl hsrc
    have hne : (R.state 0).cnt ≠ 0 := hc ▸ hcnt
    rw [R.next 0]
    change (WriteBuff.step c.ram _ _).pc = .trapped
    simp only [WriteBuff.step, hpc, if_neg hne, if_pos hodd]
  | t + 1 => by
    rw [R.next (t + 1)]
    change (WriteBuff.step c.ram _ _).pc = .trapped
    rw [WriteBuff.step, trapped_run hcnt hsrc t]
    exact trapped_run hcnt hsrc t

/-- The second byte of the last half-word that has been loaded. -/
theorem Seen.last_loaded {mem : BitVec 31 → BitVec 16} {p l : ℕ} {s : WriteBuff}
    (h : Seen c mem p (l + 1) s) : c.src + BitVec.ofNat 32 (2 * l) + 1 ∈ s.loaded := by
  rw [h.loaded, Call.sources]
  simp

/-- A call that reads only the source has room for each half-word that it reads. -/
theorem Correct.room_of_loaded (h : Correct c R) {mem : BitVec 31 → BitVec 16} {t p l : ℕ}
    (hlt : 2 * l < c.cnt.toNat) (hseen : Seen c mem p (l + 1) (R.state t)) :
    2 * l + 2 ≤ c.cnt.toNat := by
  have hin := h.inSource t _ hseen.last_loaded
  have hbound := c.cnt.isLt
  have hs := c.src.isLt
  have h1 : (1 : BitVec 32).toNat = 1 := rfl
  rw [BitVec.toNat_sub, BitVec.toNat_add, toNat_add_two_mul, h1] at hin
  omega

/-- A right call with an aligned source stays in the range. -/
theorem Correct.stays (h : Correct c R) (haddr : 2 ∣ c.addr.toNat) (hsrc : 2 ∣ c.src.toNat) :
    c.Stays (R.state 0).flash.mem := by
  have hroom : Room R := by
    intro t k hk hpc
    obtain ⟨-, -, hlt, hseen⟩ := hk.of_verify hpc
    exact h.room_of_loaded hlt hseen
  obtain ⟨t, code, hpc⟩ := h.returns
  obtain ⟨k, hk⟩ := inTurn_run haddr (fun _ => hsrc) hroom t
  rcases hk.of_returned hpc with ⟨-, hall, -⟩ | ⟨-, hlt, hbad, hseen⟩
  · exact .inl ⟨k, hall.symm⟩
  · exact .inr ⟨k, ⟨hlt, hseen.fits, hbad⟩, h.room_of_loaded hlt hseen⟩

end Whole

/-- `write_buff` is right, on any source and flash and with any completion times, exactly if it has
    nothing to do, or the source address is even and the byte count is even too or a location that
    cannot take its value, with both of its bytes inside the range, stops it. -/
theorem write_buff_correct_iff {c : Call} (haddr : 2 ∣ c.addr.toNat) (R : (machine c).Run)
    (hR : Completes c R) :
    Correct c R ↔ c.cnt = 0 ∨ (2 ∣ c.src.toNat ∧ (2 ∣ c.cnt.toNat ∨
      ∃ k, c.FirstBad (R.state 0).flash.mem k ∧ 2 * k + 2 ≤ c.cnt.toNat)) := by
  constructor
  · intro h
    by_cases h0 : c.cnt = 0
    · exact .inl h0
    · have hsrc : 2 ∣ c.src.toNat := by
        by_contra hodd
        obtain ⟨t, code, hpc⟩ := h.returns
        cases t with
        | zero => cases hpc.symm.trans R.start.1
        | succ t => cases hpc.symm.trans (trapped_run h0 hodd t)
      exact .inr ⟨hsrc, h.stays haddr hsrc⟩
  · rintro (h0 | ⟨hsrc, hstays⟩)
    · have heven : 2 ∣ c.cnt.toNat := by
        rw [h0]
        exact dvd_zero 2
      exact correct_of_stays haddr (fun hne => absurd h0 hne) (.inl heven) hR
    · exact correct_of_stays haddr (fun _ => hsrc) hstays hR

/-! A flash that is never seen busy. -/

def Call.begin (c : Call) (mem : BitVec 31 → BitVec 16) : WriteBuff where
  pc := .check
  dst := c.addr
  srcAlign := c.src
  b := 0
  cnt := c.cnt
  flash := { mode := .array, mem, programs := [] }
  loaded := []

def fast : Poll where
  done := true
  status := 0
  timer := 0

/-- A call on a fast flash. -/
def Call.run (c : Call) (mem : BitVec 31 → BitVec 16) : (machine c).Run :=
  .ofInput (c.begin mem) (fun _ => fast) ⟨rfl, rfl, rfl, rfl, rfl, rfl, rfl⟩
    fun _ => ⟨fun _ _ hdone => absurd hdone (by decide), fun _ hdone => absurd hdone (by decide)⟩

theorem Call.completes_run (c : Call) (mem : BitVec 31 → BitVec 16) : Completes c (c.run mem) :=
  fun t _ => ⟨t, le_rfl, rfl⟩

/-- Three bytes, from an even address. -/
def threeBytes : Call where
  ram := fun _ => 0x12
  src := 0x1000
  addr := 0xF0040000
  cnt := 3

/-- The environment sector, 64 KiB at `CONFIG_ENV_ADDR`, is copied from any source contents to any
    flash; three bytes to a flash of zeros are refused as they should. -/
theorem write_buff_correct_env :
    2 ∣ (0xF0040000 : BitVec 32).toNat ∧
      (∀ ram (R : (machine ⟨ram, 0x1000, 0xF0040000, 0x10000⟩).Run), Completes _ R →
        Correct _ R) ∧
      Correct threeBytes (threeBytes.run fun _ => 0) := by
  have haddr : 2 ∣ (0xF0040000 : BitVec 32).toNat := by decide
  have hsrc : 2 ∣ (0x1000 : BitVec 32).toNat := by decide
  have hcnt : 2 ∣ (0x10000 : BitVec 32).toNat := by decide
  refine ⟨haddr, fun ram R hR => ?_, ?_⟩
  · exact (write_buff_correct_iff haddr R hR).2 (.inr ⟨hsrc, .inl hcnt⟩)
  · refine (write_buff_correct_iff haddr _ (threeBytes.completes_run _)).2
      (.inr ⟨hsrc, .inr ⟨0, ⟨by decide, fun j hj => absurd hj (Nat.not_lt_zero j), ?_⟩,
        by decide⟩⟩)
    unfold Call.Fits
    decide

/-- One byte, from an even address. -/
def oneByte : Call where
  ram := fun a => if a = 0x1000 then 0x12 else 0x34
  src := 0x1000
  addr := 0xF0040000
  cnt := 1

/-- One byte to an erased flash: the next byte of the source is read and goes to the next byte of
    the flash, and the counter passes zero. -/
theorem one_byte_overruns :
    let R := oneByte.run fun _ => 0xFFFF
    Completes oneByte R ∧ 2 ∣ oneByte.addr.toNat ∧
      byteAt (R.state 0).flash.mem (oneByte.addr + 1) = 0xFF ∧
      byteAt (R.state 2).flash.mem (oneByte.addr + 1) = 0x34 ∧
      oneByte.src + 1 ∈ (R.state 2).loaded ∧ (R.state 2).pc = .check ∧
      (R.state 2).cnt = 0xFFFFFFFF ∧ ¬ Correct oneByte R := by
  refine ⟨oneByte.completes_run _, by decide, by decide, by decide, by decide, by decide,
    by decide, ?_⟩
  intro h
  have hlt := h.inRange 2 (oneByte.addr + 1) (by decide)
  exact absurd hlt (by decide)

end DsdOrsoc.UBoot
