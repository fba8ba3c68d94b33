import Mathlib.Tactic

/-! Direct-mapped write-back caches, over any tag, index and line type. The cache and the backing
    memory together show one memory: `view` reads a line from the cache when its tag is resident and
    from the backing memory otherwise. A store to a resident line changes exactly that line of the
    view; writing a line back and replacing a written-back line do not change the view at all. -/

namespace DsdOrsoc.Schemes

/-- A direct-mapped cache (resident tag, dirty bit and line of every index) over its memory. -/
@[ext] structure WriteBack (τ ι δ : Type*) where
  tag : ι → τ
  dirty : ι → Bool
  line : ι → δ
  mem : τ → ι → δ

namespace WriteBack

variable {τ ι δ : Type*} [DecidableEq τ] [DecidableEq ι] (c : WriteBack τ ι δ)

/-- The memory that cache and backing store show together. -/
def view (t : τ) (i : ι) : δ := if c.tag i = t then c.line i else c.mem t i

/-- The resident line of index `i` equals its copy in the backing memory. -/
def Backed (i : ι) : Prop := c.line i = c.mem (c.tag i) i

/-- Lines without the dirty bit are backed. -/
def Clean : Prop := ∀ i, c.dirty i = false → c.Backed i

/-- A store into the resident line of index `i`. -/
def store (i : ι) (d : δ) : WriteBack τ ι δ :=
  { c with line := Function.update c.line i d, dirty := Function.update c.dirty i true }

/-- Copy the resident line of index `i` to the backing memory; the dirty bit stays. -/
def evict (i : ι) : WriteBack τ ι δ :=
  { c with mem := Function.update c.mem (c.tag i) (Function.update (c.mem (c.tag i)) i (c.line i)) }

/-- Replace the line of index `i` by line `(t, i)` of the backing memory. -/
def replace (t : τ) (i : ι) : WriteBack τ ι δ :=
  { c with
    tag := Function.update c.tag i t
    dirty := Function.update c.dirty i false
    line := Function.update c.line i (c.mem t i) }

theorem mem_evict (i j : ι) (t : τ) :
    (c.evict i).mem t j = if t = c.tag i ∧ j = i then c.line i else c.mem t j := by
  by_cases ht : t = c.tag i
  · subst ht
    by_cases hj : j = i
    · subst hj; simp [evict]
    · simp [evict, hj]
  · simp [evict, ht]

/-- STORE: the view changes at the stored line and nowhere else. -/
theorem view_store (i : ι) (d : δ) (t : τ) (j : ι) :
    (c.store i d).view t j = if j = i ∧ c.tag i = t then d else c.view t j := by
  by_cases hj : j = i
  · subst hj
    by_cases ht : c.tag j = t <;> simp [view, store, ht]
  · simp [view, store, hj]

/-- EVICT: writing a line back is invisible. -/
theorem view_evict (i : ι) : (c.evict i).view = c.view := by
  funext t j
  simp only [view, mem_evict]
  by_cases h : c.tag j = t
  · simp [h, evict]
  · rw [if_neg (show ¬ (c.evict i).tag j = t from h), if_neg h]
    split
    · rename_i h'
      obtain ⟨rfl, rfl⟩ := h'
      exact absurd rfl h
    · rfl

/-- REPLACE: dropping a backed line for another one is invisible. -/
theorem view_replace (t : τ) (i : ι) (hb : c.Backed i) : (c.replace t i).view = c.view := by
  funext t' j
  by_cases hj : j = i
  · subst hj
    by_cases h1 : t = t'
    · subst h1
      by_cases h2 : c.tag j = t
      · subst h2; simpa [view, replace] using hb.symm
      · simp [view, replace, h2]
    · by_cases h2 : c.tag j = t'
      · subst h2; simpa [view, replace, h1] using hb.symm
      · simp [view, replace, h1, h2]
  · simp [view, replace, hj]

omit [DecidableEq ι] in
/-- The view depends on the backing memory only behind lines that are not resident. -/
theorem view_with_mem (m : τ → ι → δ) {t : τ} {i : ι} (h : c.tag i = t ∨ m t i = c.mem t i) :
    ({ c with mem := m } : WriteBack τ ι δ).view t i = c.view t i := by
  rcases h with h | h
  · simp [view, h]
  · simp [view, h]

omit [DecidableEq τ] in
theorem clean_store (i : ι) (d : δ) (hc : c.Clean) : (c.store i d).Clean := by
  intro j hj
  by_cases h : j = i
  · subst h; simp [store] at hj
  · have := hc j (by simpa [store, h] using hj)
    simpa [Backed, store, h] using this

theorem backed_evict (i j : ι) (h : j = i ∨ c.Backed j) : (c.evict i).Backed j := by
  simp only [Backed, mem_evict]
  rcases h with rfl | h
  · simp [evict]
  · split
    · rename_i h'
      obtain ⟨-, rfl⟩ := h'
      rfl
    · exact h

theorem clean_evict (i : ι) (hc : c.Clean) : (c.evict i).Clean :=
  fun j hj => c.backed_evict i j (.inr (hc j hj))

omit [DecidableEq τ] in
theorem backed_replace (t : τ) (i j : ι) (h : j = i ∨ c.Backed j) : (c.replace t i).Backed j := by
  by_cases hj : j = i
  · subst hj; simp [Backed, replace]
  · have := h.resolve_left hj
    simpa [Backed, replace, hj] using this

omit [DecidableEq τ] in
theorem clean_replace (t : τ) (i : ι) (hc : c.Clean) : (c.replace t i).Clean := by
  intro j hj
  refine c.backed_replace t i j ?_
  by_cases h : j = i
  · exact .inl h
  · exact .inr (hc j (by simpa [replace, h] using hj))

end WriteBack

end DsdOrsoc.Schemes
