import Mathlib

/-!
# Rings in flat memory

A ring of `size` cells keeps a queue in the cells from `head` on, wrapping at
the end. Transfers that cross the end are done in two contiguous pieces.
-/

namespace MoQiOS.RingMemory
open Function List Nat

variable {α : Type*}

def store (m : ℕ → α) (pos : ℕ) (src : List α) : ℕ → α :=
  fun i => if pos ≤ i then (src[i-pos]?).getD (m i) else m i

def load (m : ℕ → α) (pos n : ℕ) : List α := (List.range n).map (fun i => m (pos+i))

def held (m : ℕ → α) (size head n : ℕ) : List α :=
  (List.range n).map (fun i => m ((head+i)%size))

variable (m : ℕ → α)
include m

lemma held_length (size head n : ℕ) : (held m size head n).length = n := by
  simp [held]

lemma held_zero (size head : ℕ) : held m size head 0 = [] := rfl

lemma held_add (size head n k : ℕ) :
    held m size head (n+k) = held m size head n++held m size ((head+n)%size) k := by
  simp only [held,range_add,map_append,map_map]
  congr 1
  apply map_congr_left
  intro i _
  simp [add_assoc]

omit m

variable {n k : ℕ}

include m

lemma held_drop (size head : ℕ) (h : k ≤ n) :
    held m size ((head+k)%size) (n-k) = (held m size head n).drop k := by
  obtain ⟨d,rfl⟩ := Nat.exists_eq_add_of_le h
  rw [held_add,Nat.add_sub_cancel_left,drop_append_of_le_length (by rw [held_length]),
    drop_of_length_le (by rw [held_length]),nil_append]

lemma held_take (size head : ℕ) (h : k ≤ n) :
    held m size head k = (held m size head n).take k := by
  obtain ⟨d,rfl⟩ := Nat.exists_eq_add_of_le h
  rw [held_add,take_append_of_le_length (by rw [held_length]),
    take_of_length_le (by rw [held_length])]

omit m

variable {size head : ℕ}

lemma held_congr {m m' : ℕ → α} (h : ∀ i, i < n → m' ((head+i)%size) = m ((head+i)%size)) :
    held m' size head n = held m size head n := by
  apply map_congr_left
  intro i hi
  exact h i (mem_range.mp hi)

variable {pos : ℕ}

include m

lemma load_eq_held (h : pos+n ≤ size) : load m pos n = held m size pos n := by
  apply map_congr_left
  intro i hi
  rw [mem_range] at hi
  rw [mod_eq_of_lt (by omega)]

lemma load_wrapped (hpos : pos < size) (hn : size-pos < n) (hsize : n ≤ size) :
    load m pos (size-pos)++load m 0 (n-(size-pos)) = held m size pos n := by
  have hend : (pos+(size-pos))%size = 0 := by
    rw [Nat.add_sub_cancel' (le_of_lt hpos),mod_self]
  have hsplit : n = (size-pos)+(n-(size-pos)) := by omega
  rw [hsplit,held_add,hend,← load_eq_held m (by omega),← load_eq_held m (by omega)]
  congr 2
  omega

omit m

variable {i : ℕ}

include m

lemma store_below (pos : ℕ) (src : List α) (h : i < pos) : store m pos src i = m i := by
  rw [store,if_neg (by omega)]

lemma store_above (pos : ℕ) (src : List α) (h : pos+src.length ≤ i) :
    store m pos src i = m i := by
  rw [store,if_pos (by omega),getElem?_eq_none (by omega),Option.getD_none]

lemma store_inside (pos : ℕ) (src : List α) {j : ℕ} (h : j < src.length) :
    store m pos src (pos+j) = src[j] := by
  rw [store,if_pos (by omega),Nat.add_sub_cancel_left,getElem?_eq_getElem h,Option.getD_some]

omit m

/-- What a ring write has to achieve: the source stands in the cells from
`pos` on and no other cell of the ring changes. -/
structure Written (m m' : ℕ → α) (size pos : ℕ) (src : List α) : Prop where
  inside : ∀ j (h : j < src.length), m' ((pos+j)%size) = src[j]
  outside : ∀ i, i < size → (∀ j, j < src.length → (pos+j)%size ≠ i) → m' i = m i

include m

lemma written_nil (size pos : ℕ) : Written m m size pos [] :=
  ⟨fun _ h => absurd h (Nat.not_lt_zero _),fun _ _ _ => rfl⟩

lemma written_one (h : pos < size) (x : α) : Written m (update m pos x) size pos [x] := by
  constructor
  · intro j hj
    obtain rfl : j = 0 := by simpa using hj
    rw [Nat.add_zero,mod_eq_of_lt h,update_self]
    rfl
  · intro i _ hout
    have hne := hout 0 Nat.one_pos
    rw [Nat.add_zero,mod_eq_of_lt h] at hne
    exact update_of_ne (Ne.symm hne) _ _

omit m

variable {src : List α}

include m

lemma written_flat (h : pos+src.length ≤ size) : Written m (store m pos src) size pos src := by
  constructor
  · intro j hj
    rw [mod_eq_of_lt (by omega)]
    exact store_inside m pos src hj
  · intro i hi hout
    by_cases hlo : i < pos
    · exact store_below m pos src hlo
    apply store_above
    by_contra hc
    apply hout (i-pos) (by omega)
    rw [mod_eq_of_lt (by omega)]
    omega

lemma written_wrapped (hpos : pos < size)
    (hn : size-pos < src.length) (hsize : src.length ≤ size) :
    Written m (store (store m pos (src.take (size-pos))) 0 (src.drop (size-pos))) size pos src := by
  have hfirst : (src.take (size-pos)).length = size-pos := by
    rw [length_take]
    omega
  constructor
  · intro j hj
    by_cases hlo : j < size-pos
    · rw [mod_eq_of_lt (by omega),store_above _ _ _ (by rw [length_drop]; omega),
        store_inside m pos _ (by omega),getElem_take]
    have hw : (pos+j)%size = 0+(j-(size-pos)) := by
      rw [mod_eq_sub_mod (by omega),mod_eq_of_lt (by omega)]
      omega
    rw [hw,store_inside _ _ _ (by rw [length_drop]; omega),getElem_drop]
    congr 1
    omega
  · intro i hi hout
    have hlo : src.length-(size-pos) ≤ i := by
      by_contra hc
      apply hout (size-pos+i) (by omega)
      have hw : pos+(size-pos+i) = i+size := by omega
      rw [hw,add_mod_right,mod_eq_of_lt hi]
    rw [store_above _ _ _ (by rw [length_drop]; omega)]
    apply store_below
    by_contra hc
    apply hout (i-pos) (by omega)
    rw [mod_eq_of_lt (by omega)]
    omega

omit m

lemma held_written {m m' : ℕ → α}
    (hw : Written m m' size ((head+n)%size) src) (hroom : n+src.length ≤ size) :
    held m' size head (n+src.length) = held m size head n++src := by
  rw [held_add]
  congr 1
  · apply held_congr
    intro i hi
    have hpos : 0 < size := by omega
    apply hw.outside _ (mod_lt _ hpos)
    intro j hj heq
    rw [mod_add_mod] at heq
    have hclose := (modEq_iff_dvd' (by omega)).mp (show Nat.ModEq size (head+i) (head+n+j) from heq.symm)
    have hle := le_of_dvd (by omega) hclose
    omega
  · apply ext_getElem
    · rw [held_length]
    · intro j _ hj
      simp only [held,getElem_map,getElem_range]
      exact hw.inside j hj

end MoQiOS.RingMemory
