import Mathlib

/-!
# First best of a scan

A scan visits the positions `0, 1, …` once and remembers the first position
whose key is least. Positions without a key are passed over.
-/

namespace MoQiOS.Scans

variable {κ : Type*}

def Empty (key : ℕ → Option κ) (n : ℕ) : Prop := ∀ j, j < n → key j = none

lemma Empty.skip {key : ℕ → Option κ} {n : ℕ} (h : Empty key n) (hn : key n = none) :
    Empty key (n+1) := by
  intro j hj
  rcases Nat.lt_succ_iff_lt_or_eq.mp hj with hlt | rfl
  · exact h j hlt
  · exact hn

variable [LinearOrder κ]

/-- Position `i` is the first of the least key among the first `n` positions. -/
structure FirstBest (key : ℕ → Option κ) (n i : ℕ) (k : κ) : Prop where
  inside : i < n
  here : key i = some k
  least : ∀ j, j < n → ∀ k', key j = some k' → k ≤ k'
  first : ∀ j, j < i → ∀ k', key j = some k' → k < k'

variable {key : ℕ → Option κ} {n i : ℕ} {k : κ}

lemma Empty.take (h : Empty key n) (hn : key n = some k) : FirstBest key (n+1) n k := by
  refine ⟨Nat.lt_succ_self n,hn,?_,fun j hj k' hk' => ?_⟩
  · intro j hj k' hk'
    rcases Nat.lt_succ_iff_lt_or_eq.mp hj with hlt | rfl
    · rw [h j hlt] at hk'
      cases hk'
    · exact (Option.mem_unique hn hk').le
  · rw [h j hj] at hk'
    cases hk'

variable (h : FirstBest key n i k)
include h

lemma FirstBest.skip (hn : ∀ k', key n = some k' → k ≤ k') : FirstBest key (n+1) i k := by
  refine ⟨Nat.lt_succ_of_lt h.inside,h.here,?_,h.first⟩
  intro j hj
  rcases Nat.lt_succ_iff_lt_or_eq.mp hj with hlt | rfl
  · exact h.least j hlt
  · exact hn

lemma FirstBest.take {k' : κ} (hn : key n = some k') (hlt : k' < k) :
    FirstBest key (n+1) n k' := by
  have hbelow : ∀ j, j < n → ∀ k'', key j = some k'' → k' < k'' :=
    fun j hj k'' hk'' => hlt.trans_le (h.least j hj k'' hk'')
  refine ⟨Nat.lt_succ_self n,hn,?_,hbelow⟩
  intro j hj k'' hk''
  rcases Nat.lt_succ_iff_lt_or_eq.mp hj with hlt' | rfl
  · exact (hbelow j hlt' k'' hk'').le
  · exact (Option.mem_unique hn hk'').le

lemma FirstBest.le_of_key {j : ℕ} (hj : key j = some k) : i ≤ j := by
  by_contra hlt
  exact lt_irrefl k (h.first j (Nat.lt_of_not_le hlt) k hj)

end MoQiOS.Scans
