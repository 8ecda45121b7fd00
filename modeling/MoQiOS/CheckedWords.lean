import Mathlib

/-!
# Checked arithmetic on 64 bit words

No value stands for a trap: an addition or multiplication that does not fit in
64 bits, or a subtraction below zero.
-/

namespace MoQiOS.CheckedWords

def add64 (a b : ℕ) : Option ℕ := if a+b < 2^64 then some (a+b) else none

def mul64 (a b : ℕ) : Option ℕ := if a*b < 2^64 then some (a*b) else none

def sub64 (a b : ℕ) : Option ℕ := if b ≤ a then some (a-b) else none

@[irreducible] def addSat64 (a b : ℕ) : ℕ := min (a+b) (2^64-1)

variable {a b : ℕ}

lemma add64_eq (h : a+b < 2^64) : add64 a b = some (a+b) := if_pos h

lemma mul64_eq (h : a*b < 2^64) : mul64 a b = some (a*b) := if_pos h

lemma sub64_eq (h : b ≤ a) : sub64 a b = some (a-b) := if_pos h

lemma addSat64_eq (h : a+b < 2^64) : addSat64 a b = a+b :=
  by unfold addSat64; exact Nat.min_eq_left (Nat.le_sub_one_of_lt h)

variable {c : ℕ}

lemma add64_some (h : add64 a b = some c) : a+b < 2^64 ∧ c = a+b := by
  unfold add64 at h
  split at h
  · next hlt => exact ⟨hlt,(Option.some.inj h).symm⟩
  · cases h

lemma mul64_some (h : mul64 a b = some c) : a*b < 2^64 ∧ c = a*b := by
  unfold mul64 at h
  split at h
  · next hlt => exact ⟨hlt,(Option.some.inj h).symm⟩
  · cases h

end MoQiOS.CheckedWords
