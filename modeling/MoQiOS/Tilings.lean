import Mathlib

/-!
# Ordered pieces of an address line

A piece is a start and a length. Cutting a piece in two or joining two pieces
that touch changes neither the set of covered addresses nor the total length,
and keeps a list of pieces in address order. An allocator's block list moves
by cuts and joins only, apart from the regions appended behind its last piece.
-/

namespace MoQiOS.Tilings

open List

abbrev Piece := ℕ × ℕ

def Ordered (l : List Piece) : Prop := l.Pairwise (fun p q => p.1+p.2 ≤ q.1)

def Covers (l : List Piece) (x : ℕ) : Prop := ∃ p ∈ l, p.1 ≤ x ∧ x < p.1+p.2

def total (l : List Piece) : ℕ := (l.map Prod.snd).sum

inductive Recut : List Piece → List Piece → Prop where
  | refl (l : List Piece) : Recut l l
  | cut (a m n : ℕ) (post : List Piece) : Recut ((a,m+n)::post) ((a,m)::(a+m,n)::post)
  | join (a m n : ℕ) (post : List Piece) : Recut ((a,m)::(a+m,n)::post) ((a,m+n)::post)
  | cons (p : Piece) {l l' : List Piece} (h : Recut l l') : Recut (p::l) (p::l')
  | trans {l l' l'' : List Piece} (h : Recut l l') (h' : Recut l' l'') : Recut l l''

lemma covers_cons (p : Piece) (l : List Piece) (x : ℕ) :
    Covers (p::l) x ↔ (p.1 ≤ x ∧ x < p.1+p.2) ∨ Covers l x := by
  simp [Covers]

lemma covers_append (l l' : List Piece) (x : ℕ) :
    Covers (l++l') x ↔ Covers l x ∨ Covers l' x := by
  simp only [Covers,mem_append,or_and_right,exists_or]

lemma total_append (l l' : List Piece) : total (l++l') = total l+total l' := by
  simp [total]

variable {l l' : List Piece}

lemma Recut.covers (h : Recut l l') (x : ℕ) : Covers l' x ↔ Covers l x := by
  induction h with
  | refl l => exact Iff.rfl
  | cut a m n post =>
    simp only [covers_cons,← or_assoc]
    apply or_congr_left
    omega
  | join a m n post =>
    simp only [covers_cons,← or_assoc]
    apply or_congr_left
    omega
  | cons p _ ih => rw [covers_cons,covers_cons,ih]
  | trans _ _ ih ih' => exact ih'.trans ih

lemma Recut.total (h : Recut l l') : total l' = total l := by
  induction h with
  | refl l => rfl
  | cut a m n post => simp [Tilings.total]; omega
  | join a m n post => simp [Tilings.total]; omega
  | cons p _ ih =>
    simp only [Tilings.total,map_cons,sum_cons] at ih ⊢
    omega
  | trans _ _ ih ih' => exact ih'.trans ih

/-- A bound below which no piece starts survives every cut and join; it is
what an earlier piece in the list imposes on the later ones. -/
lemma Recut.above (h : Recut l l') (b : ℕ) (hb : ∀ p ∈ l, b ≤ p.1) : ∀ p ∈ l', b ≤ p.1 := by
  induction h with
  | refl l => exact hb
  | cut a m n post =>
    have ha : b ≤ a := hb (a,m+n) (by simp)
    intro p hp
    rcases mem_cons.mp hp with rfl | hp
    · exact ha
    rcases mem_cons.mp hp with rfl | hp
    · exact le_trans ha (Nat.le_add_right a m)
    · exact hb p (by simp [hp])
  | join a m n post =>
    intro p hp
    rcases mem_cons.mp hp with rfl | hp
    · exact hb (a,m) (by simp)
    · exact hb p (by simp [hp])
  | cons q _ ih =>
    intro p hp
    rcases mem_cons.mp hp with rfl | hp
    · exact hb p (by simp)
    · exact ih (fun r hr => hb r (by simp [hr])) p hp
  | trans _ _ ih ih' => exact ih' (ih hb)

lemma Recut.ordered (h : Recut l l') (ho : Ordered l) : Ordered l' := by
  induction h with
  | refl l => exact ho
  | cut a m n post =>
    obtain ⟨hhead,htail⟩ := pairwise_cons.mp ho
    apply pairwise_cons.mpr
    constructor
    · intro q hq
      rcases mem_cons.mp hq with rfl | hq
      · exact le_refl _
      have := hhead q hq
      simp only at this ⊢
      omega
    · apply pairwise_cons.mpr
      constructor
      · intro q hq
        have := hhead q hq
        simp only at this ⊢
        omega
      · exact htail
  | join a m n post =>
    obtain ⟨_,htail⟩ := pairwise_cons.mp ho
    obtain ⟨hsecond,hpost⟩ := pairwise_cons.mp htail
    apply pairwise_cons.mpr
    constructor
    · intro q hq
      have := hsecond q hq
      simp only at this ⊢
      omega
    · exact hpost
  | cons p h ih =>
    obtain ⟨hhead,htail⟩ := pairwise_cons.mp ho
    apply pairwise_cons.mpr
    constructor
    · exact h.above _ hhead
    · exact ih htail
  | trans _ _ ih ih' => exact ih' (ih ho)

lemma Recut.inside (pre : List Piece) (h : Recut l l') : Recut (pre++l) (pre++l') := by
  induction pre with
  | nil => exact h
  | cons p pre ih => exact ih.cons p

lemma ordered_snoc (l : List Piece) (p : Piece) (ho : Ordered l) (h : ∀ q ∈ l, q.1+q.2 ≤ p.1) :
    Ordered (l++[p]) := by
  apply pairwise_append.mpr
  refine ⟨ho,pairwise_singleton _ _,?_⟩
  intro q hq r hr
  rw [mem_singleton] at hr
  rw [hr]
  exact h q hq

lemma apart_of_ordered {α : Type*} (f : α → Piece) {l : List α} (ho : Ordered (l.map f)) {b c : α}
    (hb : b ∈ l) (hc : c ∈ l) (hne : b ≠ c) :
    (f b).1+(f b).2 ≤ (f c).1 ∨ (f c).1+(f c).2 ≤ (f b).1 := by
  induction l with
  | nil => simp at hb
  | cons r l ih =>
    obtain ⟨hhead,htail⟩ := pairwise_cons.mp ho
    rcases mem_cons.mp hb with hbr | hbl
    · rcases mem_cons.mp hc with hcr | hcl
      · exact absurd (hbr.trans hcr.symm) hne
      · rw [hbr]
        exact Or.inl (hhead _ (mem_map_of_mem hcl))
    rcases mem_cons.mp hc with hcr | hcl
    · rw [hcr]
      exact Or.inr (hhead _ (mem_map_of_mem hbl))
    · exact ih htail hbl hcl

end MoQiOS.Tilings
