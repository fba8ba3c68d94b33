import DsdOrsoc.Or1200.Icache
import DsdOrsoc.Schemes.Progress

/-! Invalidation of instruction-cache lines through the SPR port, in any cycle. It takes the one
    port of the tag RAM: the tag of a word that arrives in the same cycle is not written, its data
    is, and the fetch of the next cycle is compared with the invalidated line.

        last word of a refill + invalidation elsewhere ──▶ the line may keep the tag it had before
        refill of the line itself, then its next word  ──▶ the line is valid again -/

namespace DsdOrsoc.Or1200
open Schemes

/-- The cache with invalidations in any cycle. What the bus delivers is said of a run. -/
def invalidating (ci : BitVec 19 → Bool) : Machine Fetching IcacheIn where
  start := Fetching.Start
  legal := FetchRules ci
  step := Fetching.clk

namespace Fetching

variable {good good' : FetchAdr → BitVec 32 → Prop} {ci : BitVec 19 → Bool} {s : Fetching}
  {i i' : IcacheIn}

/-- If no word arrives in a cycle, a late hit of the next one is compared with the tag of its own
    line. -/
theorem Inv.compared_clk (hs : Inv good ci s) (h : FetchRules ci s i) (ha : i.ack = false)
    (hlate : LateHit (s.clk i) i') :
    (s.clk i).ic.tags.addrReg = (s.clk i).ic.fsm.savedAddr.line := by
  obtain ⟨hst, hev, -, -, hm⟩ := hlate
  have hdoq := doq_of_hit hm
  rcases hs with hs | hs | hs
  · rw [hs.fsm_clk h] at hst hev
    cases hc : i.cycstb with
    | false => rw [hc] at hst; cases hst.symm.trans hs.state
    | true => rw [hc] at hev; cases hev
  · cases hs.move h with
    | ends hwe hf => rw [hf] at hst; cases hst
    | hit hev' _ _ _ _ hf => rw [hf] at hev; cases hev.symm.trans hev'
    | wait ha hc hadr _ hf =>
      have haddr : s.ic.icAddr i = s.ic.fsm.savedAddr := by
        rw [Icache.icAddr, hadr, hs.saved, ite_self]
      rw [hf]
      exact (clk_tags_addrReg h haddr).resolve_right (by simp [hdoq])
    | refill _ _ ha' _ _ => cases ha.symm.trans ha'
    | word hlate _ => cases ha.symm.trans hlate.2.2.2.1
  · exact absurd hst hs.clk_ne_cfetch

/-- An invalidation elsewhere leaves the tag of the refilled line as it is. -/
theorem LastWordHit.tag_clk (hlast : LastWordHit s i) (h : FetchRules ci s i) :
    (s.clk i).ic.tags.mem s.ic.fsm.savedAddr.line = s.ic.tags.mem s.ic.fsm.savedAddr.line := by
  rw [clk_tags_mem h, hlast.2.2.2.1, if_pos rfl, Function.update_of_ne hlast.2.2.2.2.symm]

theorem Inv.refill (hs : Inv good ci s) (hst : s.ic.fsm.state = .lrefill3) : Refill good s := by
  rcases hs with hs | hs | hs
  · cases hst.symm.trans hs.state
  · cases hst.symm.trans hs.state
  · exact hs

end Fetching

namespace Invalidation
open Fetching

variable {ci : BitVec 19 → Bool} (mem : FetchAdr → BitVec 32) (R : (invalidating ci).Run) (t : ℕ)

/-- The bus delivers the words of a memory that may change from cycle to cycle. -/
def Delivers (mem : ℕ → FetchAdr → BitVec 32) : Prop :=
  ∀ t, (R.input t).ack = true → (R.input t).dat = mem t ((R.state t).ic.icAddr (R.input t))

/-- What is asked of the cache in a cycle: an acknowledged word is the word of the memory at the
    address presented in the cycle before, and unless a refill is in progress a valid line holds the
    four words of its tag. -/
def Sound : Prop :=
  ((R.state t).ic.ackO (R.input t) = true →
    ∃ n, t = n + 1 ∧ (R.input n).cycstb = true ∧
      (R.state t).ic.datO (R.input t) = mem (R.input n).adr) ∧
  ((R.state t).ic.fsm.state ≠ .lrefill3 → ∀ l, ((R.state t).ic.tags.mem l).2 = true →
    ∀ w, (R.state t).ic.ram.mem (l, w) = mem ⟨((R.state t).ic.tags.mem l).1, l, w⟩)

/-- If an invalidation takes the tag port from the last word of a refill, a valid tag of the line is
    already that of the refill, or one with the same four words. -/
def TagKept : Prop :=
  LastWordHit (R.state t) (R.input t) →
  ((R.state t).ic.tags.mem (R.state t).ic.fsm.savedAddr.line).2 = true → ∀ w,
  mem { (R.state t).ic.fsm.savedAddr with word := w } =
    mem ⟨((R.state t).ic.tags.mem (R.state t).ic.fsm.savedAddr.line).1,
      (R.state t).ic.fsm.savedAddr.line, w⟩

/-- A word that arrives for a fetch that is no miss any more was compared with its own line. -/
def Compared : Prop :=
  LateHit (R.state t) (R.input t) →
    (R.state t).ic.tags.addrReg = (R.state t).ic.fsm.savedAddr.line

/-- The bus answers no two cycles in a row: each word of a refill is a request of its own, which
    appears in the cycle after the word before. -/
def Spaced : Prop :=
  ∀ t, (R.input t).ack = true → (R.input (t + 1)).ack = false

variable {mem R t}

theorem next_state : R.state (t + 1) = (R.state t).clk (R.input t) := R.next t

/-- The address and strobe of the cycle before. -/
theorem presented (h : (R.state t).lastCycstb = true) :
    ∃ n, t = n + 1 ∧ (R.input n).cycstb = true ∧ (R.state t).lastAdr = (R.input n).adr := by
  cases t with
  | zero => cases h.symm.trans R.start.noFetch
  | succ n =>
    rw [next_state] at h ⊢
    exact ⟨n, rfl, h, rfl⟩

/-! ### Constant memory -/

theorem supply (hmem : Delivers R fun _ => mem) :
    Supply (fun a d => d = mem a) (fun a d => d = mem a) (R.state t) (R.input t) :=
  ⟨hmem t, fun _ _ hd _ => hd⟩

theorem edge (hmem : Delivers R fun _ => mem) (hkept : TagKept mem R t) (hcmp : Compared R t) :
    Edge (fun a d => d = mem a) (fun a d => d = mem a) (R.state t) (R.input t) where
  toSupply := supply hmem
  compared := hcmp
  tagKept hlast hv w _ hd := hd.trans (hkept hlast hv w)
  wordsKept _ _ _ hd := hd

theorem sound_of_inv (hs : Inv (fun a d => d = mem a) ci (R.state t))
    (hmem : Delivers R fun _ => mem) : Sound mem R t := by
  refine ⟨fun ha => ?_, fun hst => hs.filled hst⟩
  obtain ⟨hc, hd⟩ := hs.ack (R.legal t) (supply hmem) ha
  obtain ⟨n, rfl, hn, hadr⟩ := presented hc
  exact ⟨n, rfl, hn, by rw [or_self_iff.mp hd, hadr]⟩

theorem inv_next (hs : Inv (fun a d => d = mem a) ci (R.state t)) (hmem : Delivers R fun _ => mem)
    (hkept : TagKept mem R t) (hcmp : Compared R t) :
    Inv (fun a d => d = mem a) ci (R.state (t + 1)) := by
  rw [next_state]
  exact hs.clk (R.legal t) (edge hmem hkept hcmp)

/-- A refill that loses its last tag write to another line leaves that line with a wrong word. -/
theorem not_sound_of_not_tagKept (hs : Inv (fun a d => d = mem a) ci (R.state t))
    (hmem : Delivers R fun _ => mem) (hbad : ¬ TagKept mem R t) : ¬ Sound mem R (t + 1) := by
  simp only [TagKept, Classical.not_imp, not_forall] at hbad
  obtain ⟨hlast, hv, w, hw⟩ := hbad
  have hr := hs.refill hlast.1
  have hword := hr.words_last (R.legal t) (supply hmem) hlast.2.2.1 hlast.2.1
    (fun _ => hlast.2.2.2.2) w
  intro hsound
  have hidle : (R.state (t + 1)).ic.fsm.state ≠ .lrefill3 := by
    rw [next_state, hr.fsm_last (R.legal t) hlast.2.2.1 hlast.2.1]
    exact (nofun : IcState.idle ≠ .lrefill3)
  have hfill := hsound.2 hidle (R.state t).ic.fsm.savedAddr.line
  rw [next_state, hlast.tag_clk (R.legal t)] at hfill
  exact hw (hword.symm.trans (hfill hv w))

theorem compared_zero : Compared R 0 := by
  rintro ⟨hst, -⟩
  rw [R.start.fsm] at hst
  cases hst

/-- With a cycle between the words a late hit is always compared with its own line. -/
theorem compared_next {good : FetchAdr → BitVec 32 → Prop} (hs : Inv good ci (R.state t))
    (hsp : Spaced R) : Compared R (t + 1) := by
  intro hlate
  have ha : (R.input t).ack = false := by
    by_contra hc
    cases (hsp t (by simpa using hc)).symm.trans hlate.2.2.2.1
  rw [next_state] at hlate ⊢
  exact hs.compared_clk (R.legal t) ha hlate

end Invalidation

open Invalidation in
/-- Invalidations and a constant memory: in a run in which no invalidation costs a refill its tag
    and every late hit is compared with its own line, the cache stays sound. If the bus leaves a
    cycle between the words of a refill, it is sound exactly if no refill loses its tag to an
    invalidation elsewhere and so leaves another valid tag over its words. -/
theorem invalidation_sound_iff (mem : FetchAdr → BitVec 32) (ci : BitVec 19 → Bool)
    (R : (invalidating ci).Run) (hmem : Delivers R fun _ => mem) :
    ((∀ t, TagKept mem R t) → (∀ t, Compared R t) → ∀ t, Sound mem R t) ∧
    (Spaced R → ((∀ t, Sound mem R t) ↔ ∀ t, TagKept mem R t)) := by
  have h0 : Fetching.Inv (fun a d => d = mem a) ci (R.state 0) := Fetching.Start.inv R.start
  refine ⟨fun hkept hcmp t => sound_of_inv ?_ hmem, fun hsp => ?_⟩
  · induction t with
    | zero => exact h0
    | succ t ih => exact inv_next ih hmem (hkept t) (hcmp t)
  · refine tracked_iff
      (P := fun t => Fetching.Inv (fun a d => d = mem a) ci (R.state t) ∧ Compared R t)
      ⟨h0, compared_zero⟩ (fun t hs hkept => ?_) (fun t hs => sound_of_inv hs.1 hmem)
      fun t hs hbad => not_sound_of_not_tagKept hs.1 hmem hbad
    exact ⟨inv_next hs.1 hmem hkept hs.2, compared_next hs.1 hsp⟩

/-! ### A refill under invalidations -/

/-- Cycles with no request, no answer and no request before keep to the rules. -/
theorem FetchRules.quiet {s : Fetching} {i : IcacheIn} (hen : i.icEn = true) (hci : i.ci = false)
    (hc : i.cycstb = false) (hl : s.lastCycstb = false) (ha : i.ack = false)
    (he : i.err = false) : FetchRules (fun _ => false) s i where
  icEn := hen
  ci := hci
  hold _ h := by cases hc.symm.trans h
  page h := by cases hl.symm.trans h
  answers h := by simp [ha, he] at h
  either := by simp [ha]

/-- The line of 0x2020 is fetched and refilled, then that of 0x6020 in the same place, under an
    invalidation of line 5 that lasts until cycle `last`; in cycle 18 the word at 0x2020 is fetched
    again. -/
def stealInput (last t : ℕ) : IcacheIn where
  icEn := true
  adr := if 9 ≤ t ∧ t < 18 then ⟨3, 2, 0⟩ else ⟨1, 2, 0⟩
  cycstb := decide (t ≤ 1 ∨ t = 9 ∨ t = 10 ∨ t = 18)
  ci := false
  dat := if t < 9 then adrMem ⟨1, 2, BitVec.ofNat 2 ((t - 2) / 2)⟩
    else adrMem ⟨3, 2, BitVec.ofNat 2 ((t - 11) / 2)⟩
  ack := decide (t = 2 ∨ t = 4 ∨ t = 6 ∨ t = 8 ∨ t = 11 ∨ t = 13 ∨ t = 15 ∨ t = 17)
  err := false
  icInv := decide (11 ≤ t ∧ t ≤ last)
  sprLine := 5

theorem stealInput_legal {last : ℕ} (hl : last = 16 ∨ last = 17) (t : ℕ) :
    FetchRules (fun _ => false)
      ((invalidating fun _ => false).trace emptyCache (stealInput last) t) (stealInput last t) := by
  by_cases ht : t < 20
  · rcases hl with rfl | rfl
    all_goals
      interval_cases t
      all_goals constructor <;> decide
  · obtain ⟨n, rfl⟩ := Nat.exists_eq_add_of_le' (Nat.not_lt.mp ht)
    have hlast : (stealInput last (n + 19)).cycstb = false := by simp [stealInput]
    exact .quiet rfl rfl (by simp [stealInput]) hlast (by simp [stealInput]) rfl

def stealRun {last : ℕ} (hl : last = 16 ∨ last = 17) : (invalidating fun _ => false).Run :=
  .ofInput emptyCache (stealInput last) ⟨rfl, fun _ => rfl, rfl, rfl⟩ (stealInput_legal hl)

theorem stealRun_delivers {last : ℕ} (hl : last = 16 ∨ last = 17) :
    Invalidation.Delivers (stealRun hl) fun _ => adrMem := by
  intro t ha
  have ht : t < 18 := by
    simp only [stealRun, Machine.Run.ofInput, stealInput, decide_eq_true_eq] at ha
    omega
  rcases hl with rfl | rfl
  all_goals
    interval_cases t
    all_goals revert ha; decide

theorem stealRun_spaced {last : ℕ} (hl : last = 16 ∨ last = 17) :
    Invalidation.Spaced (stealRun hl) := by
  intro t ha
  simp only [stealRun, Machine.Run.ofInput, stealInput, decide_eq_true_eq,
    decide_eq_false_iff_not] at ha ⊢
  omega

/-- The invalidation takes the tag of three words of the refill; the tag of the last is written. -/
theorem invalidation_sound_iff_last_free :
    Invalidation.Delivers (stealRun (.inl rfl)) (fun _ => adrMem) ∧
    Invalidation.Spaced (stealRun (.inl rfl)) ∧
    (∀ t, Invalidation.TagKept adrMem (stealRun (.inl rfl)) t) ∧
    ∀ t, Invalidation.Sound adrMem (stealRun (.inl rfl)) t := by
  have hkept : ∀ t, Invalidation.TagKept adrMem (stealRun (.inl rfl)) t := by
    rintro t ⟨hst, hcnt, ha, hi, -⟩
    exfalso
    have ht : 11 ≤ t ∧ t ≤ 16 := by
      simpa [stealRun, Machine.Run.ofInput, stealInput] using hi
    obtain ⟨h1, h2⟩ := ht
    interval_cases t
    all_goals revert hst hcnt ha; decide
  exact ⟨stealRun_delivers _, stealRun_spaced _, hkept,
    ((invalidation_sound_iff adrMem _ _ (stealRun_delivers _)).2 (stealRun_spaced _)).2 hkept⟩

/-- The invalidation of line 5 takes the tags of all four words of the refill: line 2 keeps the tag
    of 0x2020 over the words of 0x6020, and the fetch of 0x2020 is a hit. -/
theorem invalidation_steals_tag :
    Invalidation.Delivers (stealRun (.inr rfl)) (fun _ => adrMem) ∧
    Invalidation.Spaced (stealRun (.inr rfl)) ∧
    ((stealRun (.inr rfl)).state 18).ic.fsm.state = .idle ∧
    ((stealRun (.inr rfl)).state 18).ic.tags.mem 2 = (1, true) ∧
    ((stealRun (.inr rfl)).state 18).ic.ram.mem (2, 0) = adrMem ⟨3, 2, 0⟩ ∧
    ((stealRun (.inr rfl)).state 19).ic.ackO ((stealRun (.inr rfl)).input 19) = true ∧
    ((stealRun (.inr rfl)).input 18).adr = ⟨1, 2, 0⟩ ∧
    ((stealRun (.inr rfl)).state 19).ic.datO ((stealRun (.inr rfl)).input 19) = 0x6020 ∧
    ¬ Invalidation.Sound adrMem (stealRun (.inr rfl)) 18 := by
  refine ⟨stealRun_delivers _, stealRun_spaced _, by decide, by decide, by decide, by decide,
    by decide, by decide +kernel, fun hs => ?_⟩
  have hword := hs.2 (by decide) 2 (by decide) 0
  revert hword
  decide

/-! ### A memory that is written -/

namespace Invalidation
open Fetching

variable {ci : BitVec 19 → Bool} (mem : ℕ → FetchAdr → BitVec 32) (R : (invalidating ci).Run)
  (t : ℕ)

def Invalidates (l : BitVec 9) : Prop :=
  (R.input t).icInv = true ∧ (R.input t).sprLine = l

/-- The word was read before the cycle, and not before the last invalidation of its line. -/
def Fresh (a : FetchAdr) (d : BitVec 32) : Prop :=
  ∃ u, u < t ∧ d = mem u a ∧ ∀ v, v < t → Invalidates R v a.line → v ≤ u

/-- If an invalidation takes the tag port from the last word of a refill, a valid tag of the line is
    already that of the refill. -/
def TagWritten : Prop :=
  LastWordHit (R.state t) (R.input t) →
  ((R.state t).ic.tags.mem (R.state t).ic.fsm.savedAddr.line).2 = true →
  ((R.state t).ic.tags.mem (R.state t).ic.fsm.savedAddr.line).1 = (R.state t).ic.fsm.savedAddr.tag

/-- If a line is invalidated during its own refill, the words of the refill that are there have not
    been written since they were read. -/
def Current : Prop :=
  OwnLineHit (R.state t) (R.input t) → ∀ w,
  (R.state t).ic.fsm.cnt.toNat < (w - (R.state t).ic.fsm.savedAddr.word).toNat →
  (R.state t).ic.ram.mem ((R.state t).ic.fsm.savedAddr.line, w) =
    mem t { (R.state t).ic.fsm.savedAddr with word := w }

variable {mem R t}

theorem fresh_supply (hmem : Delivers R mem) :
    Supply (Fresh mem R t) (Fresh mem R (t + 1)) (R.state t) (R.input t) where
  read ha := ⟨t, by omega, hmem t ha, fun v hv _ => by omega⟩
  keep := by
    rintro a d ⟨u, hu, hd, hv⟩ hn
    refine ⟨u, by omega, hd, fun v hvt hi => ?_⟩
    rcases Nat.lt_succ_iff_lt_or_eq.mp hvt with hlt | rfl
    · exact hv v hlt hi
    · exact absurd hi.2 (hn hi.1)

theorem fresh_edge (hmem : Delivers R mem) (hkept : TagWritten R t) (hcmp : Compared R t)
    (hcur : Current mem R t) :
    Edge (Fresh mem R t) (Fresh mem R (t + 1)) (R.state t) (R.input t) where
  toSupply := fresh_supply hmem
  compared := hcmp
  tagKept hlast hv w d hd := by
    rw [hkept hlast hv]
    exact hd
  wordsKept hown w hw _ := ⟨t, by omega, hcur hown w hw, fun v hv _ => by omega⟩

/-- RUN: every valid line holds words read since its last invalidation. -/
theorem fresh_run (hmem : Delivers R mem) (hkept : ∀ t, TagWritten R t)
    (hcmp : Spaced R ∨ ∀ t, Compared R t) (hcur : ∀ t, Current mem R t) (t : ℕ) :
    Inv (Fresh mem R t) ci (R.state t) ∧ Compared R t := by
  induction t with
  | zero => exact ⟨Start.inv R.start, compared_zero⟩
  | succ t ih =>
    refine ⟨?_, hcmp.elim (compared_next ih.1) fun h => h (t + 1)⟩
    rw [next_state]
    exact ih.1.clk (R.legal t) (fresh_edge hmem (hkept t) ih.2 (hcur t))

end Invalidation

open Invalidation in
/-- Invalidation and a memory that is written: if no refill loses its tag to an invalidation
    elsewhere, and no line is invalidated during its own refill after a word that was read before a
    store to it, then a word acknowledged for an address presented after an invalidation of its line
    is the word of the memory at the invalidation or later. -/
theorem invalidation_coherent (mem : ℕ → FetchAdr → BitVec 32) (ci : BitVec 19 → Bool)
    (R : (invalidating ci).Run) (hmem : Delivers R mem) (hkept : ∀ t, TagWritten R t)
    (hcmp : Spaced R ∨ ∀ t, Compared R t) (hcur : ∀ t, Current mem R t) (v n : ℕ) (hvn : v < n)
    (hinv : Invalidates R v (R.input n).adr.line)
    (hack : (R.state (n + 1)).ic.ackO (R.input (n + 1)) = true) :
    ∃ u, v ≤ u ∧ u ≤ n + 1 ∧
      (R.state (n + 1)).ic.datO (R.input (n + 1)) = mem u (R.input n).adr := by
  have hs := (fresh_run hmem hkept hcmp hcur (n + 1)).1
  obtain ⟨-, hd⟩ := hs.ack (R.legal (n + 1)) (fresh_supply hmem) hack
  have hlast : (R.state (n + 1)).lastAdr = (R.input n).adr := by rw [next_state]; rfl
  rw [hlast] at hd
  rcases hd with ⟨u, hu, hd, hlate⟩ | ⟨u, hu, hd, hlate⟩
  · exact ⟨u, hlate v (by omega) hinv, by omega, hd⟩
  · exact ⟨u, hlate v (by omega) hinv, by omega, hd⟩

/-- The word at 0x2020 is written in cycle 2. -/
def writtenMem (u : ℕ) (a : FetchAdr) : BitVec 32 :=
  if u < 3 ∧ a = ⟨1, 2, 0⟩ then 0 else adrMem a

/-- The line of 0x2020 is fetched and refilled, invalidated in cycle `v`, and the word at 0x2020 is
    fetched again in cycle 10; after an invalidation in cycle 9 that is a miss. -/
def storeInput (v t : ℕ) : IcacheIn where
  icEn := true
  adr := ⟨1, 2, 0⟩
  cycstb := decide (t ≤ 1 ∨ t = 10 ∨ t = 11)
  ci := false
  dat := writtenMem t ⟨1, 2, BitVec.ofNat 2 (if t < 12 then (t - 2) / 2 else (t - 12) / 2)⟩
  ack := decide (t = 2 ∨ t = 4 ∨ t = 6 ∨ t = 8 ∨
    v = 9 ∧ (t = 12 ∨ t = 14 ∨ t = 16 ∨ t = 18))
  err := false
  icInv := decide (t = v)
  sprLine := 2

theorem storeInput_legal {v : ℕ} (hv : v = 3 ∨ v = 9) (t : ℕ) :
    FetchRules (fun _ => false)
      ((invalidating fun _ => false).trace emptyCache (storeInput v) t) (storeInput v t) := by
  by_cases ht : t < 19
  · rcases hv with rfl | rfl
    all_goals
      interval_cases t
      all_goals constructor <;> decide
  · obtain ⟨n, rfl⟩ := Nat.exists_eq_add_of_le' (Nat.not_lt.mp ht)
    have hlast : (storeInput v (n + 18)).cycstb = false := by simp [storeInput]
    exact .quiet rfl rfl (by simp [storeInput]) hlast (by simp [storeInput]) rfl

def storeRun {v : ℕ} (hv : v = 3 ∨ v = 9) : (invalidating fun _ => false).Run :=
  .ofInput emptyCache (storeInput v) ⟨rfl, fun _ => rfl, rfl, rfl⟩ (storeInput_legal hv)

theorem storeRun_delivers {v : ℕ} (hv : v = 3 ∨ v = 9) :
    Invalidation.Delivers (storeRun hv) writtenMem := by
  intro t ha
  have ht : t < 19 := by
    simp only [storeRun, Machine.Run.ofInput, storeInput, decide_eq_true_eq] at ha
    omega
  rcases hv with rfl | rfl
  all_goals
    interval_cases t
    all_goals revert ha; decide

theorem storeRun_spaced {v : ℕ} (hv : v = 3 ∨ v = 9) : Invalidation.Spaced (storeRun hv) := by
  intro t ha
  simp only [storeRun, Machine.Run.ofInput, storeInput, decide_eq_true_eq,
    decide_eq_false_iff_not] at ha ⊢
  omega

/-- The line is invalidated after its refill: the next fetch gets the stored word. -/
theorem invalidation_coherent_idle :
    Invalidation.Invalidates (storeRun (.inr rfl)) 9 2 ∧
    ((storeRun (.inr rfl)).state 12).ic.ackO ((storeRun (.inr rfl)).input 12) = true ∧
    ∃ u, 9 ≤ u ∧ u ≤ 12 ∧
      ((storeRun (.inr rfl)).state 12).ic.datO ((storeRun (.inr rfl)).input 12) =
        writtenMem u ⟨1, 2, 0⟩ := by
  have hinv : ∀ t, ((storeRun (.inr rfl)).input t).icInv = true → t = 9 := fun t hi => by
    simpa [storeRun, Machine.Run.ofInput, storeInput] using hi
  have hst : ((storeRun (.inr rfl)).state 9).ic.fsm.state ≠ .lrefill3 := by decide
  refine ⟨⟨rfl, rfl⟩, by decide, ?_⟩
  refine invalidation_coherent writtenMem _ (storeRun (.inr rfl)) (storeRun_delivers _)
    (fun t hlast => ?_) (.inl (storeRun_spaced _)) (fun t hown => ?_) 9 11 (by decide)
    ⟨rfl, rfl⟩ (by decide)
  · obtain rfl := hinv t hlast.2.2.2.1
    exact absurd hlast.1 hst
  · obtain rfl := hinv t hown.2.1
    exact absurd hown.1 hst

/-- The line is invalidated during its refill, after the store and after the old word was read: the
    next word of the refill makes the line valid again, and the old word is a hit. -/
theorem invalidation_during_refill :
    Invalidation.Delivers (storeRun (.inl rfl)) writtenMem ∧
    Invalidation.Spaced (storeRun (.inl rfl)) ∧
    Invalidation.Invalidates (storeRun (.inl rfl)) 3 2 ∧
    ((storeRun (.inl rfl)).input 10).adr = ⟨1, 2, 0⟩ ∧
    ((storeRun (.inl rfl)).state 11).ic.ackO ((storeRun (.inl rfl)).input 11) = true ∧
    ((storeRun (.inl rfl)).state 11).ic.datO ((storeRun (.inl rfl)).input 11) = 0 ∧
    ∀ u, 3 ≤ u → writtenMem u ⟨1, 2, 0⟩ = 0x2020 := by
  refine ⟨storeRun_delivers _, storeRun_spaced _, ⟨rfl, rfl⟩, by decide, by decide,
    by decide +kernel, fun u hu => ?_⟩
  rw [writtenMem, if_neg (by omega)]
  decide

end DsdOrsoc.Or1200
