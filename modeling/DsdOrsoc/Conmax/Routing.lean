import DsdOrsoc.Conmax.Matrix
import DsdOrsoc.Schemes.Progress

/-! Every transaction through the matrix, from its first request to its answer. With all levels
    equal only the arbiters of level 0 are served, so a slave interface is a round-robin arbiter
    over the registered `cyc` lines:

        cycle             t      t+1     t+2
        master's cyc      1       1       1
        s<k>_cyc                  1       1      ─ the arbiter sees the request
        cyc at slave k                    1      ─ if the arbiter has granted it

    SAFETY: a master that is granted keeps the slave until two cycles after it has dropped `cyc`, so
    its request stands at its target in one interval, which its answer ends. PROGRESS: the holder's
    transaction is answered, the grant passes, and the waiting master has come nearer. -/

namespace DsdOrsoc.Conmax.Routing
open Schemes

variable (R : Matrix.machine.Run)

/-- The lines of master `j`. -/
def req (j : Master) (t : ℕ) : WbReq := (R.input t).m j

/-- Master `j` requests. -/
def Requests (j : Master) (t : ℕ) : Prop := (req R j t).cyc = true ∧ (req R j t).stb = true

/-- The answer lines to master `j`. -/
def ans (j : Master) (t : ℕ) : WbAns := (R.state t).mO (R.input t) j

/-- Master `j` sees `ack` or `err`. -/
def Answered (j : Master) (t : ℕ) : Prop := (ans R j t).ack = true ∨ (ans R j t).err = true

/-- A request of master `j` stands at target `p`. -/
def PresentedAt (p : Target) (j : Master) (t : ℕ) : Prop :=
  (R.state t).Presented (R.input t) p j

/-- The lines at target `p`. -/
def seenAt (p : Target) (t : ℕ) : WbReq := (R.state t).seen (R.input t) p

/-- The answer lines of target `p`. -/
def answerAt (p : Target) (t : ℕ) : WbAns := (R.state t).answer (R.input t) p

/-- The configuration registers keep their reset value: all priorities are equal. -/
def EqualPriorities : Prop := ∀ t k, (R.state t).rf.conf k = 0

/-- A master holds its request until it sees an answer and drops it then. -/
def MastersWait : Prop :=
  ∀ j t, Requests R j t →
    (¬ Answered R j t → req R j (t + 1) = req R j t) ∧
    (Answered R j t → (req R j (t + 1)).cyc = false ∧ (req R j (t + 1)).stb = false)

/-- A slave answers what stands at its port at some time. -/
def Responsive : Prop :=
  ∀ k t, (seenAt R (.slave k) t).cyc = true → (seenAt R (.slave k) t).stb = true →
    ∃ u, t ≤ u ∧ ((answerAt R (.slave k) u).ack = true ∨ (answerAt R (.slave k) u).err = true)

/-- A transaction of master `j` starts. -/
def Starts (j : Master) (t : ℕ) : Prop := Requests R j t ∧ ∀ n, n + 1 = t → ¬ Requests R j n

/-- The transaction of master `j` that starts in cycle `a` is answered in cycle `b`: it stands at
    its target and nowhere else, in one interval and with its own lines, and sees one answer, that
    of its target. -/
structure Served (j : Master) (a b : ℕ) : Prop where
  starts : Starts R j a
  le : a ≤ b
  held : ∀ n, a ≤ n → n ≤ b → req R j n = req R j a
  presented : ∃ c, a ≤ c ∧ c ≤ b ∧ ∀ n, a ≤ n → n ≤ b → ∀ p,
    (PresentedAt R p j n ↔ p = target (req R j a).adr ∧ c ≤ n)
  seen : ∀ n, a ≤ n → n ≤ b → ∀ p, PresentedAt R p j n → seenAt R p n = req R j a
  answered : ∀ n, a ≤ n → n ≤ b → (Answered R j n ↔ n = b)
  answer : ans R j b = answerAt R (target (req R j a).adr) b
  dropped : ¬ Requests R j (b + 1)

section Step

variable {R}

theorem Starts.requests {j : Master} {t : ℕ} (h : Starts R j t) : Requests R j t := h.1

/-- A request that is not answered stands in the next cycle, too. -/
theorem Requests.next (hm : MastersWait R) {j : Master} {t : ℕ} (h : Requests R j t)
    (hn : ¬ Answered R j t) : req R j (t + 1) = req R j t ∧ Requests R j (t + 1) := by
  have heq := (hm j t h).1 hn
  exact ⟨heq, by rw [Requests, heq]; exact h⟩

/-- After a cycle with a request the lines are the same or the request is dropped. -/
theorem Requests.held_or_dropped (hm : MastersWait R) {j : Master} {t : ℕ} (h : Requests R j t) :
    req R j (t + 1) = req R j t ∨
      ((req R j (t + 1)).cyc = false ∧ (req R j (t + 1)).stb = false) := by
  by_cases ha : Answered R j t
  · exact .inr ((hm j t h).2 ha)
  · exact .inl ((hm j t h).1 ha)

theorem state_zero : R.state 0 = Matrix.reset := R.start

theorem state_next (t : ℕ) : R.state (t + 1) = (R.state t).clk (R.input t) := R.next t

/-- The registered `cyc` of a master interface is the request of the cycle before. -/
theorem sCyc_next (hm : MastersWait R) (j : Master) (k : Slave) (t : ℕ) :
    (R.state (t + 1)).sCyc j k = true ↔ Requests R j t ∧ slvSel (req R j t).adr = k := by
  have hclk : ∀ t, ((req R j t).cyc = true → (req R j t).stb = false →
      (R.state t).sCyc j k = false) →
      ((R.state (t + 1)).sCyc j k = true ↔ Requests R j t ∧ slvSel (req R j t).adr = k) := by
    intro t hstale
    rw [state_next]
    change (if (req R j t).cyc && !(req R j t).stb then (R.state t).sCyc j k
      else if slvSel (req R j t).adr = k then (req R j t).cyc else false) = true ↔ _
    cases hc : (req R j t).cyc <;> cases hs : (req R j t).stb <;> simp [Requests, hc, hs]
    exact hstale hc hs
  -- `cyc` without `stb` keeps the register, which is clear then: no request was held before
  induction t with
  | zero =>
    refine hclk 0 fun _ _ => ?_
    rw [state_zero]
    rfl
  | succ t ih =>
    refine hclk (t + 1) fun hc hs => ?_
    by_contra hne
    obtain ⟨hr, -⟩ := ih.1 (Bool.not_eq_false _ ▸ hne)
    rcases hr.held_or_dropped hm with h | h
    · rw [h, hr.2] at hs
      cases hs
    · rw [h.1] at hc
      cases hc

theorem cycR_next (k : Slave) (j : Master) (t : ℕ) :
    ((R.state (t + 1)).slave k).cycR j = (R.state t).sCyc j k := by
  rw [state_next]
  rfl

/-- With equal priorities level 0 is served. -/
theorem priOut_zero (hc : EqualPriorities R) (k : Slave) : ∀ t, ((R.state t).slave k).priOut = 0
  | 0 => by rw [state_zero]; rfl
  | t + 1 => by
    rw [state_next]
    change (if ((R.state t).slave k).next then priEnc _ (pri ((R.state t).rf.conf k))
      else ((R.state t).slave k).priOut) = 0
    rw [hc t k, priOut_zero hc k t, priEnc_zero, ite_self]

/-- The owner of a slave interface: a round-robin grant over the registered `cyc` lines. -/
theorem mastSel_next (hc : EqualPriorities R) (k : Slave) (t : ℕ) :
    ((R.state (t + 1)).slave k).mastSel =
      RoundRobin.grant (fun j => (R.state t).sCyc j k) ((R.state t).slave k).mastSel := by
  have h1 : ((R.state (t + 1)).slave k).mastSel = ((R.state (t + 1)).slave k).gnt 0 := by
    rw [SlaveIf.mastSel, priOut_zero hc]
  have h0 : ((R.state t).slave k).mastSel = ((R.state t).slave k).gnt 0 := by
    rw [SlaveIf.mastSel, priOut_zero hc]
  rw [h1, h0, state_next]
  change arbNext _ (SlaveIf.req ((R.state t).rf.conf k) _ 0) false = _
  rw [arbNext_eq, hc t k]
  congr 1
  funext j
  simp [SlaveIf.req, pri, Matrix.masterO]

/-- Only requests are driven to a slave, two cycles after they have come. -/
theorem requests_of_drives (hm : MastersWait R) {k : Slave} {t : ℕ}
    (h : (R.state t).Drives (R.input t) k) : Requests R ((R.state t).slave k).mastSel t := by
  obtain ⟨hcyc, -, -, hstb⟩ := Matrix.drives_iff.1 h
  cases t with
  | zero =>
    rw [state_zero] at hcyc
    cases hcyc
  | succ t =>
    obtain ⟨hr, -⟩ := (sCyc_next hm _ k t).1 hcyc
    rcases hr.held_or_dropped hm with heq | hd
    · rw [Requests, heq]
      exact hr
    · rw [show (req R _ (t + 1)).stb = true from hstb] at hd
      cases hd.2

variable {p : Target} {j : Master} {t : ℕ}

/-- ONLY: at a target stands a request of its owner that goes there, with its own lines. -/
theorem presented_requests (hm : MastersWait R) (h : PresentedAt R p j t) :
    Requests R j t ∧ p = target (req R j t).adr ∧ seenAt R p t = req R j t := by
  obtain ⟨hd, ho, hp⟩ := Matrix.presented_iff.1 h
  have hr : Requests R j t := by
    rw [← ho]
    exact requests_of_drives hm hd
  exact ⟨hr, hp, Matrix.seen_eq h hr.1 hr.2⟩

/-- STAY: a request stands at its target until it is answered. -/
theorem presented_next (hc : EqualPriorities R) (hm : MastersWait R) (h : PresentedAt R p j t)
    (hn : ¬ Answered R j t) : PresentedAt R p j (t + 1) := by
  obtain ⟨hr, hp, -⟩ := presented_requests hm h
  obtain ⟨hd, ho, -⟩ := Matrix.presented_iff.1 h
  obtain ⟨heq, hr'⟩ := hr.next hm hn
  have hsel : slvSel (req R j t).adr = p.iface := by rw [hp, iface_target]
  have hcyc : (R.state t).sCyc j p.iface = true := by
    have := (Matrix.drives_iff.1 hd).1
    rwa [show ((R.state t).slave p.iface).mastSel = j from ho] at this
  have hown : ((R.state (t + 1)).slave p.iface).mastSel = j := by
    rw [mastSel_next hc, show ((R.state t).slave p.iface).mastSel = j from ho]
    exact RoundRobin.grant_of_req hcyc
  refine Matrix.presented_iff.2 ⟨Matrix.drives_iff.2 ?_, hown, ?_⟩
  · rw [hown]
    refine ⟨(sCyc_next hm j _ t).2 ⟨hr, hsel⟩, ?_, ?_, hr'.2⟩
    · rw [cycR_next]
      exact hcyc
    · rw [← hsel, ← heq]
      rfl
  · rw [hp, ← heq]
    rfl

/-- The answer of a master belongs to its request at its target. -/
theorem presented_of_answered (h : Answered R j t) :
    PresentedAt R (target (req R j t).adr) j t :=
  Matrix.presented_of_answer (R.legal t) h

theorem ans_eq (h : PresentedAt R p j t) : ans R j t = answerAt R p t := Matrix.mO_eq h

/-- The register file answers in the second cycle of an access at the latest. -/
theorem regs_answered (h : PresentedAt R .regs j t) (h' : PresentedAt R .regs j (t + 1)) :
    Answered R j t ∨ Answered R j (t + 1) := by
  have hnext : (R.state (t + 1)).rf.rfAck =
      ((R.state t).rfSel (R.input t) && !(R.state t).rf.rfAck) := by
    rw [state_next]
    rfl
  rw [Answered, Answered, ans_eq h, ans_eq h']
  change ((R.state t).rf.rfAck = true ∨ _) ∨ (R.state (t + 1)).rf.rfAck = true ∨ _
  rw [hnext, show (R.state t).rfSel (R.input t) = true from h.1]
  cases (R.state t).rf.rfAck <;> simp

/-- A target answers only while a request of its owner stands there. -/
theorem answer_presented (hc : EqualPriorities R) (hm : MastersWait R)
    (ha : (answerAt R p t).ack = true ∨ (answerAt R p t).err = true) :
    PresentedAt R p ((R.state t).owner p) t := by
  cases p with
  | slave k =>
    obtain ⟨h1, h2⟩ := R.legal t k ha
    exact ⟨h1, h2, rfl⟩
  | regs =>
    have hack : (R.state t).rf.rfAck = true := by
      rcases ha with h | h
      · exact h
      · cases h
    cases t with
    | zero =>
      rw [state_zero] at hack
      cases hack
    | succ t =>
      have hsel : (R.state t).rfSel (R.input t) = true ∧ (R.state t).rf.rfAck = false := by
        rw [state_next] at hack
        simpa [Matrix.clk, Matrix.rfClk] using hack
      -- the access of the cycle before is not answered yet, so it still stands
      have hp : PresentedAt R .regs ((R.state t).owner .regs) t :=
        ⟨hsel.1, (Matrix.rfSel_iff.1 hsel.1).1.2, rfl⟩
      have hp' := presented_next hc hm hp (by
        rw [Answered, ans_eq hp]
        rintro (h | h)
        · exact absurd (hsel.2.symm.trans h) Bool.false_ne_true
        · cases h)
      exact ⟨hp'.1, hp'.2.1, rfl⟩

end Step

/-! ### Transactions -/

section Transaction

variable {R} {j : Master} {a b : ℕ}

/-- A request has started at some time. -/
theorem Requests.started (h : Requests R j b) :
    ∃ a ≤ b, Starts R j a ∧ ∀ n, a ≤ n → n ≤ b → Requests R j n := by
  induction b with
  | zero =>
    refine ⟨0, le_rfl, ⟨h, fun n hn => by omega⟩, fun n _ hn => ?_⟩
    obtain rfl : n = 0 := by omega
    exact h
  | succ b ih =>
    by_cases hb : Requests R j b
    · obtain ⟨a, hab, hs, hreq⟩ := ih hb
      refine ⟨a, by omega, hs, fun n h1 h2 => ?_⟩
      rcases Nat.lt_or_eq_of_le h2 with h3 | rfl
      · exact hreq n h1 (by omega)
      · exact h
    · refine ⟨b + 1, le_rfl, ⟨h, fun n hn => ?_⟩, fun n h1 h2 => ?_⟩
      · obtain rfl : n = b := by omega
        exact hb
      · obtain rfl : n = b + 1 := by omega
        exact h

/-- A request is held while there is no answer. -/
theorem Requests.held (hm : MastersWait R) (h : Requests R j a) {n : ℕ} (han : a ≤ n)
    (hn : ∀ v, a ≤ v → v < n → ¬ Answered R j v) : req R j n = req R j a ∧ Requests R j n := by
  induction n, han using Nat.le_induction with
  | base => exact ⟨rfl, h⟩
  | succ n han ih =>
    obtain ⟨heq, hr⟩ := ih fun v h1 h2 => hn v h1 (by omega)
    obtain ⟨heq', hr'⟩ := hr.next hm (hn n han (by omega))
    exact ⟨heq'.trans heq, hr'⟩

theorem Answered.dropped (hm : MastersWait R) (h : Answered R j b) : ¬ Requests R j (b + 1) := by
  have hr := (presented_requests hm (presented_of_answered h)).1
  intro hr'
  rw [Requests, ((hm j b hr).2 h).1] at hr'
  cases hr'.1

/-- A transaction is served by its first answer. -/
theorem served (hc : EqualPriorities R) (hm : MastersWait R) (hs : Starts R j a) (hab : a ≤ b)
    (hb : Answered R j b) (hn : ∀ v, a ≤ v → v < b → ¬ Answered R j v) : Served R j a b := by
  have hheld : ∀ n, a ≤ n → n ≤ b → req R j n = req R j a ∧ Requests R j n :=
    fun n h1 h2 => hs.requests.held hm h1 fun v h3 h4 => hn v h3 (by omega)
  have hpb : PresentedAt R (target (req R j a).adr) j b := by
    rw [← (hheld b hab le_rfl).1]
    exact presented_of_answered hb
  -- the first cycle at the target
  obtain ⟨c, hac, hpc, hfirst⟩ := first_time ⟨b, hab, hpb⟩
  have hcb : c ≤ b := by
    by_contra hlt
    exact hfirst b hab (by omega) hpb
  have hstay : ∀ n, c ≤ n → n ≤ b → PresentedAt R (target (req R j a).adr) j n := by
    intro n h1
    induction n, h1 using Nat.le_induction with
    | base => exact fun _ => hpc
    | succ n h1 ih =>
      intro h2
      exact presented_next hc hm (ih (by omega)) (hn n (by omega) (by omega))
  refine ⟨hs, hab, fun n h1 h2 => (hheld n h1 h2).1, ⟨c, hac, hcb, ?_⟩, ?_, ?_,
    ans_eq hpb, hb.dropped hm⟩
  · intro n h1 h2 p
    constructor
    · intro hp
      have htgt : p = target (req R j a).adr := by
        rw [← (hheld n h1 h2).1]
        exact (presented_requests hm hp).2.1
      refine ⟨htgt, not_lt.1 fun hlt => hfirst n h1 hlt ?_⟩
      rwa [← htgt]
    · rintro ⟨rfl, hcn⟩
      exact hstay n hcn h2
  · intro n h1 h2 p hp
    rw [← (hheld n h1 h2).1]
    exact (presented_requests hm hp).2.2
  · intro n h1 h2
    constructor
    · intro ha
      by_contra hne
      exact hn n h1 (by omega) ha
    · rintro rfl
      exact hb

/-- Every answer ends a transaction. -/
theorem Answered.served (hc : EqualPriorities R) (hm : MastersWait R) (hb : Answered R j b) :
    ∃ a, Served R j a b := by
  have hr := (presented_requests hm (presented_of_answered hb)).1
  obtain ⟨a, hab, hs, hreq⟩ := hr.started
  refine ⟨a, Routing.served hc hm hs hab hb fun v h1 h2 ha => ?_⟩
  exact ha.dropped hm (hreq (v + 1) (by omega) (by omega))

end Transaction

/-! ### Progress -/

section Progress

variable {R} (hc : EqualPriorities R) (hm : MastersWait R) (hr : Responsive R)
include hc hm hr

/-- A request that stands at its target is answered. -/
theorem presented_answered {p : Target} {j : Master} {t : ℕ} (h : PresentedAt R p j t) :
    ∃ u, t ≤ u ∧ Answered R j u := by
  by_contra hn
  push Not at hn
  have hstay : ∀ u, t ≤ u → PresentedAt R p j u := by
    intro u hu
    induction u, hu using Nat.le_induction with
    | base => exact h
    | succ u hu ih => exact presented_next hc hm ih (hn u hu)
  cases p with
  | slave k =>
    obtain ⟨u, hu, ha⟩ := hr k t h.1 h.2.1
    refine hn u hu ?_
    rw [Answered, ans_eq (hstay u hu)]
    exact ha
  | regs =>
    rcases regs_answered h (hstay (t + 1) (by omega)) with ha | ha
    · exact hn t le_rfl ha
    · exact hn (t + 1) (by omega) ha

/-- The owner of a slave interface releases it. -/
theorem owner_releases (k : Slave) (n : ℕ) :
    ∃ u, n ≤ u ∧ (R.state u).sCyc ((R.state n).slave k).mastSel k = false := by
  generalize hj : ((R.state n).slave k).mastSel = j
  by_contra hn
  push Not at hn
  have hcyc : ∀ u, n ≤ u → (R.state u).sCyc j k = true := by
    intro u hu
    simpa using hn u hu
  have hown : ∀ u, n ≤ u → ((R.state u).slave k).mastSel = j := by
    intro u hu
    induction u, hu using Nat.le_induction with
    | base => exact hj
    | succ u hu ih =>
      rw [mastSel_next hc, ih]
      exact RoundRobin.grant_of_req (hcyc u hu)
  have hreq : ∀ u, n ≤ u → Requests R j u ∧ slvSel (req R j u).adr = k :=
    fun u hu => (sCyc_next hm j k u).1 (hcyc (u + 1) (by omega))
  have hpres : PresentedAt R (target (req R j (n + 1)).adr) j (n + 1) := by
    obtain ⟨hreq', hsel⟩ := hreq (n + 1) (by omega)
    have ho := hown (n + 1) (by omega)
    refine Matrix.presented_iff.2 ⟨?_, ?_, rfl⟩
    · rw [iface_target, hsel]
      refine Matrix.drives_iff.2 ?_
      rw [ho, cycR_next]
      exact ⟨hcyc (n + 1) (by omega), hcyc n le_rfl, hsel, hreq'.2⟩
    · rw [Matrix.owner, iface_target, hsel]
      exact ho
  obtain ⟨u, hu, ha⟩ := presented_answered hc hm hr hpres
  exact ha.dropped hm (hreq (u + 1) (by omega)).1

/-- PASS: while a master waits, the grant comes nearer to it. -/
theorem grant_nearer {k : Slave} {j : Master} {n : ℕ}
    (hw : ∀ u, n ≤ u → (R.state u).sCyc j k = true) :
    ∃ u, n ≤ u ∧ RoundRobin.dist ((R.state u).slave k).mastSel j <
      RoundRobin.dist ((R.state n).slave k).mastSel j := by
  obtain ⟨u, hnu, hfree, hfirst⟩ := first_time (owner_releases hc hm hr k n)
  have hown : ∀ v, n ≤ v → v ≤ u →
      ((R.state v).slave k).mastSel = ((R.state n).slave k).mastSel := by
    intro v hv
    induction v, hv using Nat.le_induction with
    | base => exact fun _ => rfl
    | succ v hv ih =>
      intro hlt
      have hbusy : (R.state v).sCyc ((R.state n).slave k).mastSel k = true := by
        by_contra hne
        exact hfirst v hv (by omega) (by simpa using hne)
      rw [mastSel_next hc, ih (by omega)]
      exact RoundRobin.grant_of_req hbusy
  refine ⟨u + 1, by omega, ?_⟩
  have hreq : (fun j => (R.state u).sCyc j k) j = true := hw _ hnu
  rw [mastSel_next hc, hown _ hnu le_rfl]
  exact RoundRobin.dist_grant_lt hfree hreq

/-- No master waits forever. -/
theorem no_starvation {k : Slave} {j : Master} (d n : ℕ)
    (hd : RoundRobin.dist ((R.state n).slave k).mastSel j ≤ d)
    (hw : ∀ u, n ≤ u → (R.state u).sCyc j k = true) : False := by
  induction d generalizing n with
  | zero =>
    obtain ⟨u, -, hlt⟩ := grant_nearer hc hm hr hw
    omega
  | succ d ih =>
    obtain ⟨u, hu, hlt⟩ := grant_nearer hc hm hr hw
    exact ih u (by omega) fun v hv => hw v (by omega)

/-- A transaction is answered. -/
theorem Requests.answered {j : Master} {a : ℕ} (h : Requests R j a) :
    ∃ b, a ≤ b ∧ Answered R j b := by
  by_contra hn
  push Not at hn
  have hheld : ∀ u, a ≤ u → req R j u = req R j a ∧ Requests R j u :=
    fun u hu => h.held hm hu fun v h1 _ => hn v h1
  refine no_starvation hc hm hr (k := slvSel (req R j a).adr) (j := j) _ (a + 1) le_rfl ?_
  intro u hu
  obtain ⟨n, rfl⟩ := Nat.exists_eq_add_of_le' hu
  have hn' := hheld (n + a) (by omega)
  exact (sCyc_next hm j _ (n + a)).2 ⟨hn'.2, by rw [hn'.1]⟩

end Progress

/-- The matrix routes every transaction exactly once. Every answer that a master sees ends one
    transaction of that master, which has stood at its target only, in one interval and with its own
    lines; every answer of a target goes to the one master whose request stands there; at a target
    stands nothing but a request that goes there, until it is answered; and if the slaves answer,
    every transaction is served. -/
theorem routes_exactly_once (hc : EqualPriorities R) (hm : MastersWait R) :
    (∀ j b, Answered R j b → ∃ a, Served R j a b) ∧
    (∀ p t, (answerAt R p t).ack = true ∨ (answerAt R p t).err = true →
      ∃ j, PresentedAt R p j t ∧ Answered R j t ∧
        ∀ j', Answered R j' t → target (req R j' t).adr = p → j' = j) ∧
    (∀ p j t, PresentedAt R p j t →
      Requests R j t ∧ p = target (req R j t).adr ∧ seenAt R p t = req R j t ∧
        (¬ Answered R j t → PresentedAt R p j (t + 1))) ∧
    (Responsive R → ∀ j a, Starts R j a → ∃ b, Served R j a b) := by
  refine ⟨fun j b hb => hb.served hc hm, ?_, ?_, ?_⟩
  · intro p t ha
    have hp := answer_presented hc hm ha
    refine ⟨(R.state t).owner p, hp, ?_, ?_⟩
    · rw [Answered, ans_eq hp]
      exact ha
    · rintro j' ha' rfl
      exact (presented_of_answered ha').2.2.symm
  · intro p j t h
    obtain ⟨hr, hp, hs⟩ := presented_requests hm h
    exact ⟨hr, hp, hs, presented_next hc hm h⟩
  · intro hr j a hs
    obtain ⟨b, hab, hb, hfirst⟩ := first_time (hs.requests.answered hc hm hr)
    exact ⟨b, served hc hm hs hab hb hfirst⟩

/-- Masters 1 and 2 want to read from slave 3 at the same time; it answers in the third and in the
    sixth cycle. -/
def rivalInput (t : ℕ) : MatrixIn where
  m j :=
    { cyc := decide (j = 1 ∧ t ≤ 2 ∨ j = 2 ∧ t ≤ 5)
      stb := decide (j = 1 ∧ t ≤ 2 ∨ j = 2 ∧ t ≤ 5)
      adr := if j = 1 then 0x30000010 else 0x30000020
      dat := 0
      sel := 15
      we := false }
  s k :=
    { ack := decide (k = 3 ∧ (t = 2 ∨ t = 5))
      err := false
      rty := false
      dat := if t = 2 then 42 else 43 }

theorem rivalInput_legal (t : ℕ) :
    Matrix.machine.legal (Matrix.machine.trace Matrix.reset rivalInput t) (rivalInput t) := by
  intro k hk
  have h : k = 3 ∧ (t = 2 ∨ t = 5) := by simpa [rivalInput] using hk
  obtain ⟨rfl, rfl | rfl⟩ := h
  · decide
  · decide

def rivalRun : Matrix.machine.Run := .ofInput Matrix.reset rivalInput rfl rivalInput_legal

theorem rivalRun_conf : EqualPriorities rivalRun := by
  have hadr : ∀ t j, rfNibble (req rivalRun j t).adr ≠ 15 := by
    intro t j
    change rfNibble (if j = 1 then 0x30000010 else 0x30000020) ≠ 15
    split <;> decide
  have hsel : ∀ t, (rivalRun.state t).rfSel (rivalRun.input t) = false := by
    intro t
    rw [← Bool.not_eq_true, Matrix.rfSel_iff]
    exact fun h => hadr t _ h.2
  have hwe : ∀ t, (rivalRun.state t).rf.rfWe = false := by
    intro t
    cases t with
    | zero => rfl
    | succ t =>
      rw [state_next]
      simp [Matrix.clk, Matrix.rfClk, hsel t]
  intro t k
  induction t with
  | zero => rfl
  | succ t ih =>
    rw [state_next]
    simp [Matrix.clk, Matrix.rfClk, hwe t, ih]

theorem rivalRun_waits : MastersWait rivalRun := by
  have h1 : ∀ n < 2, ¬ Answered rivalRun 1 n ∧ req rivalRun 1 (n + 1) = req rivalRun 1 n := by
    unfold Answered
    decide
  have h2 : ∀ n < 5, ¬ Answered rivalRun 2 n ∧ req rivalRun 2 (n + 1) = req rivalRun 2 n := by
    unfold Answered
    decide
  intro j t hr
  have h : j = 1 ∧ t ≤ 2 ∨ j = 2 ∧ t ≤ 5 := of_decide_eq_true hr.1
  rcases h with ⟨rfl, ht⟩ | ⟨rfl, ht⟩
  · rcases Nat.lt_or_eq_of_le ht with ht | rfl
    · exact ⟨fun _ => (h1 t ht).2, fun h => absurd h (h1 t ht).1⟩
    · exact ⟨fun h => absurd (.inl (by decide)) h, fun _ => ⟨by decide, by decide⟩⟩
  · rcases Nat.lt_or_eq_of_le ht with ht | rfl
    · exact ⟨fun _ => (h2 t ht).2, fun h => absurd h (h2 t ht).1⟩
    · exact ⟨fun h => absurd (.inl (by decide)) h, fun _ => ⟨by decide, by decide⟩⟩

/-- Each of them gets its own answer. -/
theorem routes_exactly_once_rivals :
    (∃ a, Served rivalRun 1 a 2) ∧ (ans rivalRun 1 2).dat = 42 ∧
    (∃ a, Served rivalRun 2 a 5) ∧ (ans rivalRun 2 5).dat = 43 := by
  have h := (routes_exactly_once rivalRun rivalRun_conf rivalRun_waits).1
  exact ⟨h 1 2 (.inl (by decide)), by decide, h 2 5 (.inl (by decide)), by decide⟩

end DsdOrsoc.Conmax.Routing
