import Mathlib

/-!
# Serial numbers

Thirty-two bit counters that wrap. A position on an unbounded line is named by
its distance from a base; comparisons are exact as long as the positions
compared lie within half the space of each other.
-/

namespace MoQiOS.SerialNumbers

abbrev Serial := BitVec 32

variable (base : Serial)

@[irreducible] def after (n : ℕ) : Serial := base+BitVec.ofNat 32 n

/-- The first number comes before the second on the half circle behind it. -/
def before (a b : Serial) : Bool := decide (2^31 ≤ (a-b).toNat)

lemma toNat_after (n : ℕ) : (after base n).toNat = (base.toNat+n)%2^32 := by
  simp [after,BitVec.toNat_add]

lemma after_zero : after base 0 = base := by
  simp [after]

lemma after_one : after base 1 = base+1 := by
  rw [after]
  rfl

lemma after_after (n k : ℕ) : after (after base n) k = after base (n+k) := by
  simp [after,BitVec.ofNat_add,add_assoc]

variable {n k : ℕ}

lemma distance (hle : k ≤ n) (hlt : n-k < 2^32) : (after base n-after base k).toNat = n-k := by
  rw [BitVec.toNat_sub,toNat_after,toNat_after]
  omega

lemma distance_from_base (hlt : n < 2^32) : (after base n-base).toNat = n := by
  have h := distance base (Nat.zero_le n) hlt
  rwa [after_zero] at h

lemma after_distance (base a : Serial) : after base (a-base).toNat = a := by
  rw [after,BitVec.ofNat_toNat,BitVec.setWidth_eq,add_sub_cancel]

lemma after_inj {base : Serial} (h : after base n = after base k)
    (hn : n < k+2^32) (hk : k < n+2^32) : n = k := by
  have heq : (base.toNat+n)%2^32 = (base.toNat+k)%2^32 := by
    rw [← toNat_after,← toNat_after,h]
  omega

lemma before_after (hn : n < k+2^31) (hk : k ≤ n+2^31) :
    before (after base n) (after base k) = decide (n < k) := by
  rw [before,BitVec.toNat_sub,toNat_after,toNat_after]
  apply decide_eq_decide.mpr
  omega

end MoQiOS.SerialNumbers
