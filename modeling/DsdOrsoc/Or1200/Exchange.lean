import DsdOrsoc.Or1200.WbBiu
import DsdOrsoc.Schemes.Progress

/-! Requests of the core and transfers on the bus. The core holds a request until `biu_ack_o` or
    `biu_err_o` answers it and drops it in the next cycle; the unit is to make one transfer of it.
    The next value of `wb_stb_o` looks at `wb_ack_i` and not at `wb_err_i`:

        biu request     A   A   A   -   -           biu request     A   A   A   -   -
        wb_stb_o        .   1   1   .   .           wb_stb_o        .   1   1   1   1
        wb_ack_i        .   .   1   .   .           wb_err_i        .   .   1   .   1

    A transfer that ends with an error is issued a second time, and by then the core has dropped its
    request: the unit takes the second one for an aborted transfer and waits for its end. -/

namespace DsdOrsoc.Or1200
open Schemes

/-- The input pins with the read data of the bus. -/
structure BusIn extends WbBiuIn where
  wbDatI : BitVec 32

namespace WbBiu

/-- The inputs are not registered: the read data goes straight to the core. -/
def biuDatO (i : BusIn) : BitVec 32 := i.wbDatI

/-- The unit answers the core. -/
def answers (s : WbBiu) (i : WbBiuIn) : Bool := s.biuAckO i || s.biuErrO i

/-- The unit between any core and any bus with read data. -/
def readable : Machine WbBiu BusIn where
  start s := s = reset
  legal _ _ := True
  step s i := s.clk i.toWbBiuIn

end WbBiu

section Exchange
open WbBiu

variable (R : WbBiu.readable.Run)

/-! ### Both sides of the unit -/

/-- The request of this cycle is answered in it. -/
def Answered (t : ℕ) : Prop :=
  (R.input t).req = true ∧ (R.state t).answers (R.input t).toWbBiuIn = true

/-- A transfer is terminated: `wb_ack_i` or `wb_err_i` is sampled with `wb_stb_o` high. -/
def Terminated (t : ℕ) : Prop := (R.state t).wbStbO = true ∧ (R.input t).done = true

/-- The pins show one and the same request. -/
def SameRequest (i j : BusIn) : Prop :=
  j.biuAdrI = i.biuAdrI ∧ j.biuWeI = i.biuWeI ∧ j.biuSelI = i.biuSelI ∧ j.biuDatI = i.biuDatI

/-- The core holds a request unchanged until it is answered, and drops it then. -/
structure Requester : Prop where
  held : ∀ t, (R.input t).req = true → ¬ Answered R t →
    (R.input (t + 1)).req = true ∧ SameRequest (R.input t) (R.input (t + 1))
  dropped : ∀ t, Answered R t → (R.input (t + 1)).req = false

/-- A request begins. -/
def Starts (a : ℕ) : Prop :=
  (R.input a).req = true ∧ ∀ n, n + 1 = a → (R.input n).req = false

/-- The request that begins in cycle `a` is answered in cycle `b`. -/
structure Request (a b : ℕ) : Prop where
  starts : Starts R a
  le : a ≤ b
  waits : ∀ n, a ≤ n → n < b → ¬ Answered R n
  answered : Answered R b

/-- The lines of the bus are those of a request. -/
def Carries (s : WbBiu) (i : BusIn) : Prop :=
  s.wbAdrO = i.biuAdrI ∧ s.wbWeO = i.biuWeI ∧ s.wbSelO = i.biuSelI ∧ s.wbDatO = i.biuDatI

/-- The bus terminates every transfer at some time. -/
def Terminates : Prop := ∀ t, (R.state t).wbStbO = true → ∃ u, t ≤ u ∧ (R.input u).done = true

/-- Between the start of a request and the start of the next one exactly one transfer is terminated;
    every transfer is that of a request; it carries the request, and its termination and its read
    data are the answer; and every request gets one, if the bus terminates its transfers. -/
structure OneTransfer : Prop where
  once : ∀ a b, Request R a b → ∃! t, Terminated R t ∧ a ≤ t ∧
    ∀ n, b < n → n ≤ t → (R.input n).req = false
  own : ∀ t, Terminated R t → ∃ a, Request R a t
  carries : ∀ a b, Request R a b → Terminated R b ∧ Carries (R.state b) (R.input a)
  answer : ∀ a b, Request R a b →
    (R.state b).biuAckO (R.input b).toWbBiuIn = (R.input b).wbAckI ∧
    (R.state b).biuErrO (R.input b).toWbBiuIn = (R.input b).wbErrI ∧
    biuDatO (R.input b) = (R.input b).wbDatI
  served : Terminates R → ∀ a, Starts R a → ∃ b, Request R a b

/-- The bus answers a request with `wb_ack_i`, and only in a transfer. -/
def AcksAt (t : ℕ) : Prop :=
  (R.input t).req = true → (R.input t).done = true →
    (R.state t).wbStbO = true ∧ (R.input t).wbAckI = true

/-! ### Requests -/

variable {R} {a b t : ℕ}

theorem SameRequest.trans {i j k : BusIn} (h : SameRequest i j) (h' : SameRequest j k) :
    SameRequest i k :=
  ⟨h'.1.trans h.1, h'.2.1.trans h.2.1, h'.2.2.1.trans h.2.2.1, h'.2.2.2.trans h.2.2.2⟩

theorem answers_eq {s : WbBiu} {i : WbBiuIn} (h : s.abortedR = false) : s.answers i = i.done := by
  simp [answers, biuAckO, biuErrO, WbBiuIn.done, h]

theorem not_answered_of_abortedR (h : (R.state t).abortedR = true) : ¬ Answered R t := by
  intro ha
  have := ha.2
  simp [answers, biuAckO, biuErrO, h] at this

/-- An unanswered request is still there. -/
theorem Requester.lasts (h : Requester R) (ha : (R.input a).req = true) (hab : a ≤ b)
    (hw : ∀ n, a ≤ n → n < b → ¬ Answered R n) :
    (R.input b).req = true ∧ SameRequest (R.input a) (R.input b) := by
  induction b, hab using Nat.le_induction with
  | base => exact ⟨ha, rfl, rfl, rfl, rfl⟩
  | succ b hab ih =>
    obtain ⟨hb, hsame⟩ := ih fun n h1 h2 => hw n h1 (by omega)
    obtain ⟨hb', hsame'⟩ := h.held b hb (hw b hab (by omega))
    exact ⟨hb', hsame.trans hsame'⟩

/-- An answered cycle is the last one of a request. -/
theorem Requester.request (h : Requester R) (ht : Answered R t) : ∃ a, Request R a t := by
  have hstart : ∀ n ≤ t, (R.input n).req = true → (∀ m, n ≤ m → m < t → ¬ Answered R m) →
      ∃ a, Request R a t := by
    intro n
    induction n with
    | zero =>
      intro hn hr hw
      exact ⟨0, ⟨hr, fun m hm => by omega⟩, hn, hw, ht⟩
    | succ n ih =>
      intro hn hr hw
      cases hp : (R.input n).req with
      | false =>
        refine ⟨n + 1, ⟨hr, fun m hm => ?_⟩, hn, hw, ht⟩
        obtain rfl : m = n := by omega
        exact hp
      | true =>
        -- the request was there already, unanswered, since an answered one is dropped
        refine ih (by omega) hp fun m h1 h2 => ?_
        rcases Nat.eq_or_lt_of_le h1 with rfl | h1
        · intro hans
          simp [h.dropped _ hans] at hr
        · exact hw m h1 h2
  exact hstart t le_rfl ht.1 fun m h1 h2 => by omega

/-! ### The unit follows the requests -/

theorem run_succ (R : WbBiu.readable.Run) (t : ℕ) :
    R.state (t + 1) = (R.state t).clk (R.input t).toWbBiuIn := R.next t

/-- INVARIANT: nothing is aborted, and a transfer is that of the request on the pins. -/
structure Follows (s : WbBiu) (i : BusIn) : Prop where
  kept : s.abortedR = false
  req : s.wbStbO = true → i.req = true ∧ Carries s i

/-- The registers after an edge that does not end a request take its lines. -/
theorem clk_carries {s : WbBiu} {i : BusIn} (hr : i.req = true) (hd : i.done = false)
    (hc : s.wbStbO = true → Carries s i) :
    (s.clk i.toWbBiuIn).wbStbO = true ∧ Carries (s.clk i.toWbBiuIn) i := by
  have hack : i.wbAckI = false := by
    simp only [WbBiuIn.done, Bool.or_eq_false_iff] at hd
    exact hd.1
  refine ⟨by simp [clk, hr, hack], ?_, by simp [clk, aborted, hr], rfl,
    by simp [clk, aborted, hr, hack]⟩
  cases hs : s.wbStbO with
  | false => simp [clk, aborted, hr, hack, hs]
  | true => simpa [clk, aborted, hr, hack, hs] using (hc hs).1

/-- STEP: an edge keeps the invariant if the bus acknowledges. -/
theorem Follows.step (h : Requester R) (hf : Follows (R.state t) (R.input t))
    (hok : AcksAt R t) : Follows (R.state (t + 1)) (R.input (t + 1)) := by
  have hans := answers_eq (i := (R.input t).toWbBiuIn) hf.kept
  cases hr : (R.input t).req with
  | false =>
    have hs : (R.state t).wbStbO = false := by
      by_contra hs
      simp [(hf.req (by simpa using hs)).1] at hr
    refine ⟨by simp [run_succ, clk, aborted, hs, hf.kept], fun hs' => ?_⟩
    simp [run_succ, clk, aborted, hs, hr] at hs'
  | true =>
    cases hd : (R.input t).done with
    | false =>
      obtain ⟨hr', hadr, hwe, hsel, hdat⟩ := h.held t hr fun ha => by simpa [hans, hd] using ha.2
      obtain ⟨-, c1, c2, c3, c4⟩ := clk_carries hr hd fun hs => (hf.req hs).2
      rw [run_succ]
      refine ⟨by simp [clk, aborted, hr, hf.kept], fun _ => ⟨hr', ?_⟩⟩
      exact ⟨c1.trans hadr.symm, c2.trans hwe.symm, c3.trans hsel.symm, c4.trans hdat.symm⟩
    | true =>
      obtain ⟨-, hack⟩ := hok hr hd
      refine ⟨by simp [run_succ, clk, hd], fun hs' => ?_⟩
      simp [run_succ, clk, hack] at hs'

/-- RUN: the invariant holds as long as the bus has acknowledged. -/
theorem follows (h : Requester R) (hok : ∀ n < t, AcksAt R n) :
    Follows (R.state t) (R.input t) := by
  induction t with
  | zero =>
    rw [show R.state 0 = reset from R.start]
    exact ⟨rfl, nofun⟩
  | succ t ih => exact (ih fun n hn => hok n (by omega)).step h (hok t (by omega))

theorem Follows.answered_iff (hf : Follows (R.state t) (R.input t)) :
    Answered R t ↔ (R.input t).req = true ∧ (R.input t).done = true := by
  rw [Answered, answers_eq hf.kept]

theorem one_transfer_of_acks (h : Requester R) (hok : ∀ t, AcksAt R t) : OneTransfer R := by
  have hf : ∀ t, Follows (R.state t) (R.input t) := fun t => follows h fun n _ => hok n
  have hterm : ∀ t, Terminated R t ↔ Answered R t := by
    intro t
    rw [(hf t).answered_iff]
    exact ⟨fun ht => ⟨((hf t).req ht.1).1, ht.2⟩, fun ht => ⟨(hok t ht.1 ht.2).1, ht.2⟩⟩
  refine ⟨fun a b hab => ?_, fun t ht => h.request ((hterm t).1 ht), fun a b hab => ?_,
    fun a b hab => ?_, fun hbus a ha => ?_⟩
  · refine ⟨b, ⟨(hterm b).2 hab.answered, hab.le, fun n h1 h2 => by omega⟩, ?_⟩
    rintro t ⟨ht, hat, hnext⟩
    have hans := (hterm t).1 ht
    rcases lt_trichotomy t b with hlt | rfl | hlt
    · exact absurd hans (hab.waits t hat hlt)
    · rfl
    · exact absurd hans.1 (by simp [hnext t hlt le_rfl])
  · have ht := (hterm b).2 hab.answered
    obtain ⟨-, hadr, hwe, hsel, hdat⟩ := h.lasts hab.starts.1 hab.le hab.waits
    obtain ⟨c1, c2, c3, c4⟩ := ((hf b).req ht.1).2
    exact ⟨ht, c1.trans hadr, c2.trans hwe, c3.trans hsel, c4.trans hdat⟩
  · simp [biuAckO, biuErrO, biuDatO, (hf b).kept]
  · have hex : ∃ b, a ≤ b ∧ Answered R b := by
      by_contra hno
      push Not at hno
      have hreq : ∀ n, a ≤ n → (R.input n).req = true := fun n hn =>
        (h.lasts ha.1 hn fun m hm _ => hno m hm).1
      have hdone : ∀ n, a ≤ n → (R.input n).done = false := by
        intro n hn
        have := hno n hn
        rw [(hf n).answered_iff] at this
        simpa [hreq n hn] using this
      have hs := (clk_carries (hreq a le_rfl) (hdone a le_rfl) fun hs => ((hf a).req hs).2).1
      rw [← run_succ] at hs
      obtain ⟨u, hu, hd⟩ := hbus (a + 1) hs
      simp [hdone u (by omega)] at hd
    obtain ⟨b, hab, hans, hw⟩ := first_time hex
    exact ⟨b, ha, hab, hw, hans⟩

/-- After an error the transfer is issued again, and its end is kept from the core. -/
theorem reissued (hr : (R.input t).req = true) (hack : (R.input t).wbAckI = false)
    (hdrop : (R.input (t + 1)).req = false) {u : ℕ} (hu : t + 1 ≤ u)
    (hw : ∀ n, t + 1 ≤ n → n < u → (R.input n).done = false) :
    (R.state u).wbStbO = true ∧ (u = t + 1 ∨ (R.state u).abortedR = true) := by
  induction u, hu using Nat.le_induction with
  | base => exact ⟨by simp [run_succ, clk, hr, hack], .inl rfl⟩
  | succ u hu ih =>
    obtain ⟨hs, hab⟩ := ih fun n h1 h2 => hw n h1 (by omega)
    have hd := hw u hu (by omega)
    rw [run_succ R u]
    refine ⟨(clk_pending hs hd).2.1, .inr ?_⟩
    rcases hab with rfl | hab
    · simp [clk, aborted, hs, hd, hdrop]
    · simp [clk, hd, hab]

theorem acks_of_one_transfer (h : Requester R) (hbus : Terminates R) (hone : OneTransfer R)
    (t : ℕ) : AcksAt R t := by
  induction t using Nat.strong_induction_on with
  | h t ih =>
    intro hr hd
    have hans := (follows h ih).answered_iff.2 ⟨hr, hd⟩
    obtain ⟨a, hat⟩ := h.request hans
    have ht := (hone.carries a t hat).1
    refine ⟨ht.1, ?_⟩
    by_contra hack
    rw [Bool.not_eq_true] at hack
    have hdrop := h.dropped t hans
    have hs : (R.state (t + 1)).wbStbO = true :=
      (reissued hr hack hdrop le_rfl fun n h1 h2 => by omega).1
    obtain ⟨u, hu, hdu, hw⟩ := first_time (hbus (t + 1) hs)
    obtain ⟨hsu, hab⟩ := reissued hr hack hdrop hu fun n h1 h2 => by simpa using hw n h1 h2
    obtain ⟨a', hau⟩ := hone.own u ⟨hsu, hdu⟩
    rcases hab with rfl | hab
    · exact absurd hau.answered.1 (by simp [hdrop])
    · exact not_answered_of_abortedR hab hau.answered

variable (R)

/-- One transfer for each request, if the bus answers requests in their transfers and with
    `wb_ack_i`; and only then, if it terminates all transfers. -/
theorem one_transfer_iff (h : Requester R) :
    ((∀ t, AcksAt R t) → OneTransfer R) ∧
    (Terminates R → (OneTransfer R ↔ ∀ t, AcksAt R t)) :=
  ⟨one_transfer_of_acks h,
    fun hbus => ⟨acks_of_one_transfer h hbus, one_transfer_of_acks h⟩⟩

end Exchange

/-! ### A read -/

/-- The core reads a word in the cycles 0 and 1. The bus acknowledges in cycle 1, or it signals an
    error there and again in cycle 2. -/
def readInput (err : Bool) (t : ℕ) : BusIn where
  biuAdrI := 0x100
  biuDatI := 0
  biuCycI := decide (t ≤ 1)
  biuStbI := decide (t ≤ 1)
  biuWeI := false
  biuSelI := 15
  wbAckI := !err && decide (t = 1)
  wbErrI := err && decide (t = 1 ∨ t = 2)
  wbDatI := 42

def readRun (err : Bool) : WbBiu.readable.Run :=
  .ofInput WbBiu.reset (readInput err) rfl fun _ => trivial

theorem readInput_req (err : Bool) {t : ℕ} (ht : 2 ≤ t) : ((readRun err).input t).req = false := by
  have : ¬ t ≤ 1 := by omega
  simp [readRun, Machine.Run.ofInput, readInput, WbBiuIn.req, this]

theorem readRun_answered (err : Bool) : ¬ Answered (readRun err) 0 ∧ Answered (readRun err) 1 := by
  cases err <;> exact ⟨fun h => absurd h.2 (by decide), by decide, by decide⟩

theorem readRun_requester (err : Bool) : Requester (readRun err) where
  held t hr hno := by
    match t with
    | 0 => exact ⟨rfl, rfl, rfl, rfl, rfl⟩
    | 1 => exact absurd (readRun_answered err).2 hno
    | t + 2 => exact absurd hr (by simp [readInput_req err (show 2 ≤ t + 2 by omega)])
  dropped t ha := by
    match t with
    | 0 => exact absurd ha (readRun_answered err).1
    | t + 1 => exact readInput_req err (by omega)

/-- With an acknowledge the read is one transfer. -/
theorem one_transfer_iff_read :
    Requester (readRun false) ∧ OneTransfer (readRun false) := by
  refine ⟨readRun_requester false, (one_transfer_iff _ (readRun_requester false)).1 ?_⟩
  intro t hr hd
  match t with
  | 0 => exact absurd hd (by decide)
  | 1 => exact ⟨by decide, by decide⟩
  | t + 2 => exact absurd hr (by simp [readInput_req false (show 2 ≤ t + 2 by omega)])

/-- With an error the read is terminated in cycle 1 and, issued again, in cycle 2. -/
theorem errored_read_reissued :
    Requester (readRun true) ∧ Request (readRun true) 0 1 ∧ Terminated (readRun true) 1 ∧
    ((readRun true).input 2).req = false ∧ Terminated (readRun true) 2 ∧
    ¬ OneTransfer (readRun true) := by
  have hreq : Request (readRun true) 0 1 :=
    ⟨⟨by decide, fun n hn => by omega⟩, by decide, fun n h1 h2 => by
      obtain rfl : n = 0 := by omega
      exact (readRun_answered true).1, (readRun_answered true).2⟩
  have h1 : Terminated (readRun true) 1 := ⟨by decide, by decide⟩
  have h2 : Terminated (readRun true) 2 := ⟨by decide, by decide⟩
  refine ⟨readRun_requester true, hreq, h1, by decide, h2, fun h => ?_⟩
  obtain ⟨a, ha⟩ := h.own 2 h2
  exact absurd ha.answered.1 (by decide)

end DsdOrsoc.Or1200
