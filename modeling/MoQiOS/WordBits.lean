import Mathlib

/-!
# Byte bitmaps read a word at a time

A bitmap is an unbounded array of bytes. Bit `i` lives in byte `i/8`; a
sixty-four bit little-endian word covers the bits from `64*w` on. Scanning a
word visits its set bits from the lowest upward by clearing the lowest one
after each visit. The population of a bitmap is counted over a prefix.
-/

namespace MoQiOS.WordBits

abbrev Bytes := ℕ → BitVec 8

def mask (i : ℕ) : BitVec 8 := 1#8 <<< (i%8)

variable (b : Bytes)

def test (i : ℕ) : Bool := (b (i/8) &&& mask i) != 0#8

def set (i : ℕ) : Bytes :=
  fun k => if k = i/8 then b k ||| mask i else b k

def clear (i : ℕ) : Bytes :=
  fun k => if k = i/8 then b k &&& ~~~(mask i) else b k

lemma mask_bit (i j : ℕ) (hj : j < 8) : (mask i).getLsbD j = decide (j = i%8) := by
  have hi : i%8 < 8 := Nat.mod_lt _ (by decide)
  simp only [mask,BitVec.getLsbD_shiftLeft,BitVec.getLsbD_one]
  by_cases h : j = i%8
  · simp [h,hi]
  by_cases hlt : j < i%8
  · simp [h,hlt]
  simp only [h,hj,hlt,decide_false,decide_true,Bool.not_false,Bool.true_and,Bool.and_eq_false_imp,
    decide_eq_false_iff_not,decide_eq_true_eq]
  omega

lemma test_eq_bit (i : ℕ) : test b i = (b (i/8)).getLsbD (i%8) := by
  have hi : i%8 < 8 := Nat.mod_lt _ (by decide)
  cases hb : (b (i/8)).getLsbD (i%8) with
  | false =>
    have hz : b (i/8) &&& mask i = 0#8 := by
      apply BitVec.eq_of_getLsbD_eq
      intro j hj
      rw [BitVec.getLsbD_and,mask_bit i j hj]
      by_cases h : j = i%8
      · simp [h,hb]
      · simp [h]
    simp [test,hz]
  | true =>
    have hbit : (b (i/8) &&& mask i).getLsbD (i%8) = true := by
      rw [BitVec.getLsbD_and,mask_bit i _ hi]
      simp [hb]
    simp only [test,bne_iff_ne]
    intro hz
    rw [hz] at hbit
    simp at hbit

lemma same_slot (i j : ℕ) : (j/8 = i/8 ∧ j%8 = i%8) ↔ j = i := by
  constructor
  · rintro ⟨hd,hm⟩
    omega
  · rintro rfl
    exact ⟨rfl,rfl⟩

lemma test_set (i j : ℕ) : test (set b i) j = (decide (j = i) || test b j) := by
  have hj : j%8 < 8 := Nat.mod_lt _ (by decide)
  rw [test_eq_bit,test_eq_bit]
  by_cases hd : j/8 = i/8
  · have hs := same_slot i j
    simp only [set,hd,if_true,BitVec.getLsbD_or,mask_bit i _ hj]
    rw [Bool.or_comm]
    congr 1
    exact decide_eq_decide.mpr (by simpa [hd] using hs)
  · have hne : j ≠ i := fun h => hd (by rw [h])
    simp [set,hd,hne]

lemma test_clear (i j : ℕ) : test (clear b i) j = (!decide (j = i) && test b j) := by
  have hj : j%8 < 8 := Nat.mod_lt _ (by decide)
  rw [test_eq_bit,test_eq_bit]
  by_cases hd : j/8 = i/8
  · have hs := same_slot i j
    simp only [clear,hd,if_true,BitVec.getLsbD_and,BitVec.getLsbD_not,hj,decide_true,
      Bool.true_and,mask_bit i _ hj]
    rw [Bool.and_comm]
    congr 2
    exact decide_eq_decide.mpr (by simpa [hd] using hs)
  · have hne : j ≠ i := fun h => hd (by rw [h])
    simp [clear,hd,hne]

@[simp] lemma test_set_self (i : ℕ) : test (set b i) i = true := by
  simp [test_set]

@[simp] lemma test_clear_self (i : ℕ) : test (clear b i) i = false := by
  simp [test_clear]

lemma test_zero (i : ℕ) : test (fun _ => 0#8) i = false := by
  simp [test]

def word (w : ℕ) : BitVec 64 :=
  b (8*w+7) ++ b (8*w+6) ++ b (8*w+5) ++ b (8*w+4) ++
    b (8*w+3) ++ b (8*w+2) ++ b (8*w+1) ++ b (8*w)

lemma word_bit (w i : ℕ) (hi : i < 64) : (word b w).getLsbD i = test b (w*64+i) := by
  have hd : (w*64+i)/8 = 8*w+i/8 := by omega
  have hm : (w*64+i)%8 = i%8 := by omega
  rw [test_eq_bit,hd,hm]
  simp only [word,BitVec.getLsbD_append]
  have hcase : i/8 = 0 ∨ i/8 = 1 ∨ i/8 = 2 ∨ i/8 = 3 ∨ i/8 = 4 ∨ i/8 = 5 ∨ i/8 = 6 ∨ i/8 = 7 := by
    omega
  rcases hcase with h | h | h | h | h | h | h | h <;> rw [h]
  all_goals
    -- the bytes below the bit's own are passed over
    repeat rw [if_neg (by omega)]
    try rw [if_pos (by omega)]
    congr 1
    omega

variable (x : BitVec 64)

def dropLowest : BitVec 64 := x &&& (x-1#64)

lemma dropLowest_lt (h : x ≠ 0#64) : (dropLowest x).toNat < x.toNat := by
  have hle : (x &&& (x-1#64)).toNat ≤ (x-1#64).toNat := by
    rw [BitVec.toNat_and]
    exact Nat.and_le_right
  have hlt : (x-1#64).toNat < x.toNat := by bv_omega
  exact lt_of_le_of_lt hle hlt

lemma lowest_lt (h : x ≠ 0#64) : x.ctz.toNat < 64 := by
  have hlt := BitVec.ctz_lt_iff_ne_zero.mpr h
  simpa [BitVec.lt_def] using hlt

def population (n : ℕ) : ℕ := ((Finset.range n).filter (fun i => test b i)).card

lemma population_zero (n : ℕ) : population (fun _ => 0#8) n = 0 := by
  simp [population,test_zero]

lemma population_set (n i : ℕ) (hi : i < n) (h : test b i = false) :
    population (set b i) n = population b n+1 := by
  have hs : (Finset.range n).filter (fun j => test (set b i) j) =
      insert i ((Finset.range n).filter (fun j => test b j)) := by
    ext j
    by_cases hj : j = i
    · subst hj
      simp [hi]
    · simp [test_set,hj]
  rw [population,hs,Finset.card_insert_of_notMem (by simp [h])]
  rfl

lemma population_clear (n i : ℕ) (hi : i < n) (h : test b i = true) :
    population (clear b i) n+1 = population b n := by
  have hs : (Finset.range n).filter (fun j => test b j) =
      insert i ((Finset.range n).filter (fun j => test (clear b i) j)) := by
    ext j
    by_cases hj : j = i
    · subst hj
      simp [hi,h]
    · simp [test_clear,hj]
  rw [population,population,hs,Finset.card_insert_of_notMem (by simp)]

end MoQiOS.WordBits
