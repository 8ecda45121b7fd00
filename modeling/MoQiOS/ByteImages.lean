import Mathlib

/-!
# Images of bytes

An image gives every offset a value. Lists are written over it, and windows of
it are read.
-/

namespace MoQiOS.ByteImages

open List

variable {α : Type*}

def overwrite (f : ℕ → α) (off : ℕ) (data : List α) : ℕ → α :=
  fun k => if off ≤ k then (data[k-off]?).getD (f k) else f k

def window (f : ℕ → α) (off len : ℕ) : List α := (List.range len).map fun k => f (off+k)

variable {data : List α} (f : ℕ → α)
include f

lemma overwrite_inside {off k : ℕ} (hk : off ≤ k)
    (hlt : k-off < data.length) : overwrite f off data k = data[k-off] := by
  rw [overwrite,if_pos hk,getElem?_eq_getElem hlt]
  rfl

lemma overwrite_outside {off k : ℕ}
    (hk : k < off ∨ off+data.length ≤ k) : overwrite f off data k = f k := by
  rw [overwrite]
  split_ifs with hle
  · rw [getElem?_eq_none (by omega)]
    rfl
  · rfl

@[simp] lemma overwrite_nil (off : ℕ) : overwrite f off [] = f := by
  ext k
  exact overwrite_outside f (by simp; omega)

lemma overwrite_comm {off off' : ℕ} {a b : List α}
    (h : off+a.length ≤ off' ∨ off'+b.length ≤ off) :
    overwrite (overwrite f off a) off' b = overwrite (overwrite f off' b) off a := by
  ext k
  by_cases ha : off ≤ k ∧ k < off+a.length
  · have hb : k < off' ∨ off'+b.length ≤ k := by omega
    rw [overwrite_outside _ hb,overwrite_inside _ ha.1 (by omega),overwrite_inside _ ha.1 (by omega)]
  have hout : k < off ∨ off+a.length ≤ k := by omega
  rw [overwrite_outside _ hout]
  by_cases hb : off' ≤ k ∧ k < off'+b.length
  · rw [overwrite_inside _ hb.1 (by omega),overwrite_inside _ hb.1 (by omega)]
  · have hout' : k < off' ∨ off'+b.length ≤ k := by omega
    rw [overwrite_outside _ hout',overwrite_outside _ hout',overwrite_outside _ hout]

lemma overwrite_append (off : ℕ) (a b : List α) :
    overwrite f off (a++b) = overwrite (overwrite f off a) (off+a.length) b := by
  ext k
  by_cases ha : off ≤ k ∧ k < off+a.length
  · rw [overwrite_inside _ ha.1 (by simp; omega),overwrite_outside _ (.inl (by omega)),
      overwrite_inside _ ha.1 (by omega),getElem_append_left]
  have hout : k < off ∨ off+a.length ≤ k := by omega
  by_cases hb : off+a.length ≤ k ∧ k < off+a.length+b.length
  · rw [overwrite_inside _ (by omega) (by simp; omega),overwrite_inside _ hb.1 (by omega),
      getElem_append_right (by omega)]
    congr 1
    omega
  · rw [overwrite_outside _ (by simp; omega),overwrite_outside _ (by omega),
      overwrite_outside _ hout]

lemma overwrite_again (off : ℕ) (old new : List α) :
    overwrite (overwrite f off old) off new = overwrite f off (new++old.drop new.length) := by
  ext k
  by_cases hn : off ≤ k ∧ k < off+new.length
  · rw [overwrite_inside _ hn.1 (by omega),overwrite_inside _ hn.1 (by simp; omega),
      getElem_append_left]
  rw [overwrite_outside _ (by omega)]
  by_cases ho : off ≤ k ∧ k < off+old.length
  · rw [overwrite_inside _ ho.1 (by omega),overwrite_inside _ ho.1 (by simp; omega),
      getElem_append_right (by omega),getElem_drop]
    congr 1
    omega
  · rw [overwrite_outside _ (by omega),overwrite_outside _ (by simp; omega)]

@[simp] lemma window_length (off len : ℕ) : (window f off len).length = len := by
  simp [window]

@[simp] lemma window_getElem (off len k : ℕ) (hk : k < (window f off len).length) :
    (window f off len)[k] = f (off+k) := by simp [window]

lemma window_succ (off len : ℕ) : window f off (len+1) = f off::window f (off+1) len := by
  simp only [window,range_succ_eq_map,map_cons,map_map,Nat.add_zero]
  refine congrArg _ (map_congr_left fun k _ => ?_)
  simp only [Function.comp_apply]
  congr 1
  omega

lemma window_append (off m n : ℕ) : window f off m++window f (off+m) n = window f off (m+n) := by
  induction m generalizing off with
  | zero => simp [window]
  | succ m ih =>
    rw [window_succ,Nat.add_right_comm m 1 n,window_succ,← ih (off+1),cons_append,
      Nat.add_right_comm off 1 m,Nat.add_assoc off m 1]

lemma drop_window (off len k : ℕ) : (window f off len).drop k = window f (off+k) (len-k) := by
  refine ext_getElem (by simp) fun j _ _ => ?_
  rw [getElem_drop,window_getElem,window_getElem]
  congr 1
  omega

lemma take_window (off len k : ℕ) (hk : k ≤ len) :
    (window f off len).take k = window f off k := by
  refine ext_getElem (by simpa using hk) fun j _ _ => ?_
  rw [getElem_take,window_getElem,window_getElem]

omit f

def splice (buf : List α) (off : ℕ) (data : List α) : List α :=
  buf.take off++data++buf.drop (off+data.length)

include f

/-- Reading a window, changing a part of it and writing it back changes just that part. -/
lemma overwrite_splice {base len off : ℕ} (h : off+data.length ≤ len) :
    overwrite f base (splice (window f base len) off data) = overwrite f (base+off) data := by
  have hself : ∀ o n, overwrite f o (window f o n) = f := by
    intro o n
    ext k
    by_cases hk : o ≤ k ∧ k < o+n
    · rw [overwrite_inside _ hk.1 (by simp; omega),window_getElem]
      congr 1
      omega
    · exact overwrite_outside f (by simp; omega)
  rw [splice,append_assoc,take_window f base len off (by omega),overwrite_append,hself,
    window_length,overwrite_append,drop_window,← Nat.add_assoc,
    overwrite_comm f (.inl (Nat.le_refl _)),hself]

lemma overwrite_run (base width first n : ℕ) (x : α) : (List.range' first n).foldl
        (fun f s => overwrite f (base+s*width) (List.replicate width x)) f =
      overwrite f (base+first*width) (List.replicate (n*width) x) := by
  induction n generalizing f first with
  | zero => simp
  | succ n ih =>
    have hnext : base+(first+1)*width = base+first*width+(List.replicate width x).length := by
      rw [length_replicate]
      ring
    rw [range'_succ,foldl_cons,ih,hnext,← overwrite_append,← replicate_add]
    congr 2
    ring

/-- The part of a write that falls into a window, put into the window. -/
lemma window_splice {off len byteOffset skip copy dst : ℕ}
    (hplace : off+dst = byteOffset+skip) (hcopy : skip+copy ≤ data.length) (hdst : dst+copy ≤ len)
    (hfirst : skip = 0 ∨ dst = 0) (hlast : skip+copy = data.length ∨ dst+copy = len) :
    (window f off len).take dst++(data.drop skip).take copy++(window f off len).drop (dst+copy) =
      window (overwrite f byteOffset data) off len := by
  have hmid : ((data.drop skip).take copy).length = copy := by
    rw [length_take,length_drop]
    omega
  have hleft : ((window f off len).take dst).length = dst := by
    rw [length_take,window_length]
    omega
  refine ext_getElem ?_ fun k hk hk' => ?_
  · simp only [length_append,length_drop,window_length,hmid,hleft]
    omega
  · rw [window_length] at hk'
    rw [window_getElem]
    by_cases h₁ : k < dst
    · rw [getElem_append_left (by simp only [length_append,hmid,hleft]; omega),
        getElem_append_left (by omega),getElem_take,window_getElem, overwrite_outside _ (by omega)]
    by_cases h₂ : k < dst+copy
    · rw [getElem_append_left (by simp only [length_append,hmid,hleft]; omega),
        getElem_append_right (by omega),getElem_take,getElem_drop,
        overwrite_inside _ (by omega) (by omega)]
      congr 1
      omega
    · rw [getElem_append_right (by simp only [length_append,hmid,hleft]; omega),
        getElem_drop,window_getElem,overwrite_outside _ (by omega)]
      congr 1
      simp only [length_append,hmid,hleft]
      omega

end MoQiOS.ByteImages
