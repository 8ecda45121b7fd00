import Mathlib

/-!
# Tables of slots

A table is a list of slots, and what a slot is worth is a value of a
commutative monoid: the elements it holds, their number or their size.
Writing one slot exchanges its old worth for the new one. A rewriting of
elements whose results it leaves alone can be carried out slot by slot in any
order, with the surplus results placed in slots that were free.
-/

namespace MoQiOS.SlotTables
open Function List

variable {α σ M : Type*} [AddCommMonoid M]

def total (w : σ → M) (l : List σ) : M := (l.map w).sum

lemma total_cons (w : σ → M) (a : σ) (l : List σ) : total w (a::l) = w a+total w l := by
  simp [total]

variable {l : List σ}

lemma total_set (w : σ → M) {i : ℕ} {a : σ} (b : σ) (h : l[i]? = some a) :
    total w (l.set i b)+w a = total w l+w b := by
  induction l generalizing i with
  | nil => simp at h
  | cons c l ih =>
    cases i with
    | zero =>
      obtain rfl : c = a := by simpa using h
      simp only [total,set_cons_zero,map_cons,sum_cons]
      abel
    | succ i =>
      have := ih (by simpa using h)
      simp only [total,set_cons_succ,map_cons,sum_cons] at this ⊢
      rw [add_assoc,this,add_assoc]

lemma total_erase [BEq σ] [LawfulBEq σ] (w : σ → M) {a : σ} (h : a ∈ l) :
    total w (l.erase a)+w a = total w l := by
  have hperm := ((perm_cons_erase h).map w).sum_eq
  rw [total,total,hperm,map_cons,sum_cons,add_comm]

lemma sum_exchange {ι : Type*} [DecidableEq ι] (w : σ → M) (f : ι → σ) {s : Finset ι} {i : ι}
    (hi : i ∈ s) (b : σ) : ∑ j ∈ s, w (update f i b j)+w (f i) = ∑ j ∈ s, w (f j)+w b := by
  have hrest : ∑ j ∈ s.erase i, w (update f i b j) = ∑ j ∈ s.erase i, w (f j) :=
    Finset.sum_congr rfl fun j hj => by rw [update_of_ne (Finset.ne_of_mem_erase hj)]
  rw [← Finset.add_sum_erase s _ hi,← Finset.add_sum_erase s (fun j => w (f j)) hi,
    update_self,hrest]
  abel

lemma total_map {N : Type*} [AddCommMonoid N] (g : M →+ N) (w : σ → M) (l : List σ) :
    g (total w l) = total (fun s => g (w s)) l := by
  simp [total,map_list_sum,Function.comp_def]

lemma mem_total (w : σ → Multiset α) {a : α} (h : a ∈ total w l) : ∃ s ∈ l, a ∈ w s := by
  induction l with
  | nil => exact absurd h (Multiset.notMem_zero a)
  | cons c l ih =>
    rcases Multiset.mem_add.mp h with hc | hl
    · exact ⟨c,by simp,hc⟩
    · obtain ⟨s,hs,ha⟩ := ih hl
      exact ⟨s,by simp [hs],ha⟩

lemma free_slot (full : σ → Bool) (l : List σ)
    (h : total (fun s => if full s then 1 else 0) l < l.length) :
    ∃ i s, l.findIdx? (fun s => !full s) = some i ∧ l[i]? = some s ∧ full s = false := by
  induction l with
  | nil => simp at h
  | cons c l ih =>
    rcases hc : full c with _ | _
    · exact ⟨0,c,by simp [findIdx?_cons,hc],by simp,hc⟩
    have hl : total (fun s => if full s then 1 else 0) l < l.length := by
      simp only [total,map_cons,sum_cons,hc,if_true,length_cons] at h ⊢
      omega
    obtain ⟨i,s,hi,hs,hf⟩ := ih hl
    exact ⟨i+1,s,by simp [findIdx?_cons,hc,hi],by simpa using hs,hf⟩

section
variable (f : α → Multiset α)

def Settled (r : α) : Prop := f r = {r}

lemma bind_settled {s : Multiset α} (h : ∀ r ∈ s, Settled f r) : s.bind f = s := by
  induction s using Multiset.induction with
  | empty => simp
  | cons a s ih =>
    rw [Multiset.cons_bind,h a (Multiset.mem_cons_self a s),
      ih (fun r hr => h r (Multiset.mem_cons_of_mem hr)),Multiset.singleton_add]

lemma bind_exchange {s t : Multiset α} {r : α} (hf : ∀ p ∈ f r, Settled f p)
    (h : t+{r} = s+f r) : t.bind f = s.bind f := by
  have := congrArg (fun u => u.bind f) h
  simp only [Multiset.add_bind,Multiset.singleton_bind,bind_settled f hf] at this
  exact add_right_cancel this

end

end MoQiOS.SlotTables
