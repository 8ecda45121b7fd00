import Mathlib

/-!
# Sixteen bit one's complement sums

Addition with end-around carry, and the sum of a list of words by it. A sum is
determined by two facts about the ordinary sum: its residue modulo 65535 and
whether it is zero. Folding a number at sixteen bits keeps both.
-/

namespace MoQiOS.OnesComplement

def onesAdd (a b : ℕ) : ℕ := if a+b < 65536 then a+b else a+b-65535

def onesSum (ws : List ℕ) : ℕ := ws.foldl onesAdd 0

variable (n : ℕ)

/-- The sixteen bit word that stands for a number. -/
def word : ℕ := if n = 0 then 0 else (n-1)%65535+1

def fold : ℕ := n%65536+n/65536

lemma word_le : word n ≤ 65535 := by
  unfold word
  split
  · omega
  · have := Nat.mod_lt (n-1) (show 0 < 65535 by omega)
    omega

lemma word_of_le {n : ℕ} (h : n ≤ 65535) : word n = n := by
  unfold word
  split
  · omega
  · rw [Nat.mod_eq_of_lt (by omega)]
    omega

lemma onesAdd_word {a : ℕ} (h : a ≤ 65535) : onesAdd (word n) a = word (n+a) := by
  unfold onesAdd word
  split_ifs <;> omega

lemma foldl_onesAdd {ws : List ℕ} (h : ∀ w ∈ ws, w ≤ 65535) (n : ℕ) :
    ws.foldl onesAdd (word n) = word (n+ws.sum) := by
  induction ws generalizing n with
  | nil => rfl
  | cons w ws ih =>
    rw [List.foldl_cons,onesAdd_word n (h w List.mem_cons_self),
      ih (fun v hv => h v (List.mem_cons_of_mem w hv)),List.sum_cons,Nat.add_assoc]

lemma onesSum_eq {ws : List ℕ} (h : ∀ w ∈ ws, w ≤ 65535) : onesSum ws = word ws.sum := by
  have := foldl_onesAdd h 0
  rw [Nat.zero_add] at this
  exact this

structure Same (m n : ℕ) : Prop where
  residue : m%65535 = n%65535
  zero : m = 0 ↔ n = 0

lemma Same.refl : Same n n := ⟨rfl,Iff.rfl⟩

lemma Same.symm {m n : ℕ} (h : Same m n) : Same n m := ⟨h.residue.symm,h.zero.symm⟩

lemma Same.trans {m n k : ℕ} (h : Same m n) (h' : Same n k) : Same m k :=
  ⟨h.residue.trans h'.residue,h.zero.trans h'.zero⟩

lemma Same.add {a b m n : ℕ} (h : Same a b) (h' : Same m n) : Same (a+m) (b+n) := by
  obtain ⟨h1,h2⟩ := h
  obtain ⟨h3,h4⟩ := h'
  constructor <;> omega

lemma Same.word_eq {m n : ℕ} (h : Same m n) : word m = word n := by
  obtain ⟨h1,h2⟩ := h
  unfold word
  split_ifs <;> omega

lemma word_same : Same (word n) n := by
  unfold word
  constructor <;> split <;> omega

lemma fold_same : Same (fold n) n := by
  unfold fold
  constructor <;> omega

lemma fold_fold_le {n : ℕ} (h : n < 2^32) : fold (fold n) ≤ 65535 := by
  unfold fold
  omega

lemma fold_fold {n : ℕ} (h : n < 2^32) : fold (fold n) = word n := by
  rw [← word_of_le (fold_fold_le h)]
  exact ((fold_same _).trans (fold_same n)).word_eq

lemma word_complement : word (n+(65535-word n)) = 65535 := by
  have := word_le n
  rw [((Same.add (word_same n).symm (Same.refl (65535-word n)))).word_eq,Nat.add_sub_cancel' this]
  rfl

end MoQiOS.OnesComplement
