import Mathlib

/-!
# One computation, two arithmetics

A function over sixty-four bit words takes its addition, subtraction and
product from an `Arith`. Run on `machine` it wraps as the hardware does; run on
`exact` it never wraps. A computation that agrees on both has not wrapped
where it matters.
-/

namespace MoQiOS.WordArith
open Nat

def wordSize : ℕ := 2^64

structure Arith where
  add : ℕ → ℕ → ℕ
  sub : ℕ → ℕ → ℕ
  mul : ℕ → ℕ → ℕ

def machine : Arith where
  add a b := (a+b)%wordSize
  sub a b := (a+(wordSize-b))%wordSize
  mul a b := (a*b)%wordSize

def exact : Arith where
  add a b := a+b
  sub a b := a-b
  mul a b := a*b

@[simp] lemma exact_add (a b : ℕ) : exact.add a b = a+b := rfl

@[simp] lemma exact_sub (a b : ℕ) : exact.sub a b = a-b := rfl

@[simp] lemma exact_mul (a b : ℕ) : exact.mul a b = a*b := rfl

variable {a b : ℕ}

lemma machine_add (h : a+b < wordSize) : machine.add a b = a+b :=
  mod_eq_of_lt h

lemma machine_sub (h : b ≤ a) (ha : a < wordSize) : machine.sub a b = a-b := by
  have hs : a+(wordSize-b) = a-b+wordSize := by omega
  change (a+(wordSize-b))%wordSize = a-b
  rw [hs,add_mod_right]
  exact mod_eq_of_lt (by omega)

lemma wordSize_pos : 0 < wordSize := Nat.two_pow_pos 64

lemma machine_add_lt (a b : ℕ) : machine.add a b < wordSize := by
  change (a+b)%wordSize < wordSize
  exact mod_lt _ wordSize_pos

lemma machine_sub_lt (a b : ℕ) : machine.sub a b < wordSize := by
  change (a+(wordSize-b))%wordSize < wordSize
  exact mod_lt _ wordSize_pos

lemma machine_mul_lt (a b : ℕ) : machine.mul a b < wordSize := by
  change (a*b)%wordSize < wordSize
  exact mod_lt _ wordSize_pos

lemma machine_add_wrap (ha : a < wordSize) (hb : b < wordSize) (h : wordSize ≤ a+b) :
    machine.add a b = a+b-wordSize := by
  change (a+b)%wordSize = a+b-wordSize
  rw [mod_eq_sub_mod h]
  exact mod_eq_of_lt (by omega)

lemma machine_sub_wrap (h : a < b) (hb : b ≤ wordSize) : machine.sub a b = a+wordSize-b := by
  have hs : a+(wordSize-b) = a+wordSize-b := by omega
  change (a+(wordSize-b))%wordSize = _
  rw [hs]
  exact mod_eq_of_lt (by omega)

end MoQiOS.WordArith
