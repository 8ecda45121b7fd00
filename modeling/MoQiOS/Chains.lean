import Mathlib

/-!
# Chains through a link table

A singly linked list kept in a table of links, as intrusive lists are. A walk
takes fuel and tells whether it came to an end; along a chain it does.
-/

namespace MoQiOS.Chains
open Function List

variable {α : Type*}

/-- The links from `head` on run through the nodes of the list and end. -/
def Chain (next : α → Option α) : Option α → List α → Prop
  | head, [] => head = none
  | head, a :: rest => head = some a ∧ Chain next (next a) rest

variable {head : Option α} {l : List α} {next next' : α → Option α}

lemma Chain.frame
    (h : Chain next head l) (hs : ∀ a ∈ l, next' a = next a) : Chain next' head l := by
  induction l generalizing head with
  | nil => exact h
  | cons a rest ih =>
    refine ⟨h.1,?_⟩
    rw [hs a mem_cons_self]
    exact ih h.2 (fun b hb => hs b (mem_cons_of_mem a hb))

variable {next : α → Option α}

lemma Chain.head_eq (h : Chain next head l) : head = l.head? := by
  cases l with
  | nil => exact h
  | cons a rest => exact h.1

lemma Chain.next_at {k : ℕ} {a : α}
    (h : Chain next head l) (hk : l[k]? = some a) : next a = l[k+1]? := by
  induction l generalizing head k with
  | nil => simp at hk
  | cons b rest ih =>
    cases k with
    | zero =>
      obtain rfl : b = a := by simpa using hk
      rw [h.2.head_eq,head?_eq_getElem?,getElem?_cons_succ]
    | succ k => exact ih h.2 hk

variable {first rest : List α}

lemma Chain.suffix (h : Chain next head (first++rest)) : Chain next rest.head? rest := by
  induction first generalizing head with
  | nil => exact h.head_eq ▸ h
  | cons a first ih => exact ih h.2

lemma Chain.unique {l l' : List α}
    (h : Chain next head l) (h' : Chain next head l') : l = l' := by
  induction l generalizing head l' with
  | nil =>
    cases l' with
    | nil => rfl
    | cons b rest' =>
      have heq := h'.1
      rw [show head = none from h] at heq
      cases heq
  | cons a rest ih =>
    cases l' with
    | nil =>
      have heq := h.1
      rw [show head = none from h'] at heq
      cases heq
    | cons b rest' =>
      obtain rfl : a = b := Option.mem_unique h.1 h'.1
      rw [ih h.2 h'.2]

lemma Chain.nodup (h : Chain next head l) : l.Nodup := by
  induction l generalizing head with
  | nil => exact nodup_nil
  | cons a rest ih =>
    refine nodup_cons.mpr ⟨fun hmem => ?_,ih h.2⟩
    obtain ⟨first,last,rfl⟩ := append_of_mem hmem
    have hagain : Chain next (some a) (a::last) := h.2.suffix
    have hsame := (h.1 ▸ h).unique hagain
    have hlen := congrArg List.length hsame
    simp at hlen
    omega

lemma Chain.length_le {next : ℕ → Option ℕ} {head : Option ℕ} {l : List ℕ} {n : ℕ}
    (h : Chain next head l) (hl : ∀ a ∈ l, a < n) : l.length ≤ n := by
  have hsub := subperm_of_subset h.nodup (fun a ha => mem_range.mpr (hl a ha))
  simpa using hsub.length_le

lemma Chain.divert {first rest rest' : List α} {a : α}
    (h : Chain next head (first++a::rest)) (hsame : ∀ b ∈ first, next' b = next b)
    (hrest : Chain next' (next' a) rest') : Chain next' head (first++a::rest') := by
  induction first generalizing head with
  | nil => exact ⟨h.1,hrest⟩
  | cons b first ih =>
    refine ⟨h.1,?_⟩
    rw [hsame b mem_cons_self]
    exact ih h.2 (fun c hc => hsame c (mem_cons_of_mem b hc))

lemma Chain.reroute {good : α → Prop}
    (h : Chain next head l) (hhead : ∀ a, head = some a → good a)
    (hstep : ∀ a, good a → (∃ l', Chain next' (some a) l') ∨
      next' a = next a ∧ ∀ b, next a = some b → good b) : ∃ l', Chain next' head l' := by
  induction l generalizing head with
  | nil => exact ⟨[],h⟩
  | cons a rest ih =>
    rcases hstep a (hhead a h.1) with ha | ⟨hsame,hgood⟩
    · rw [h.1]
      exact ha
    obtain ⟨l',hl'⟩ := ih h.2 hgood
    rw [← hsame] at hl'
    exact ⟨a::l',h.1,hl'⟩

/-- The first node that satisfies a test. No answer means that the walk did not end. -/
def search (next : α → Option α) (p : α → Bool) : ℕ → Option α → Option (Option α)
  | _, none => some none
  | 0, some _ => none
  | fuel+1, some a => if p a then some (some a) else search next p fuel (next a)

variable {fuel : ℕ}

lemma search_chain (p : α → Bool) (h : Chain next head l) (hl : l.length ≤ fuel) :
    search next p fuel head = some (l.find? p) := by
  induction l generalizing head fuel with
  | nil =>
    rw [show head = none from h,search]
    rfl
  | cons a rest ih =>
    obtain ⟨fuel,rfl⟩ : ∃ k, fuel = k+1 := ⟨fuel-1,by simp at hl; omega⟩
    rw [h.1,search,find?_cons]
    cases p a with
    | true => rfl
    | false => exact ih h.2 (by simpa using hl)

def nodes (next : α → Option α) : ℕ → Option α → List α
  | _, none => []
  | 0, some _ => []
  | fuel+1, some a => a :: nodes next fuel (next a)

lemma nodes_chain (h : Chain next head l) (hl : l.length ≤ fuel) : nodes next fuel head = l := by
  induction l generalizing head fuel with
  | nil =>
    rw [show head = none from h,nodes]
  | cons a rest ih =>
    obtain ⟨fuel,rfl⟩ : ∃ k, fuel = k+1 := ⟨fuel-1,by simp at hl; omega⟩
    rw [h.1,nodes,ih h.2 (by simpa using hl)]

section
variable [DecidableEq α]

def before (next : α → Option α) (target : α) :
    ℕ → Option α → Option α → Option (Option (Option α))
  | _, _, none => some none
  | 0, _, some _ => none
  | fuel+1, prev, some a =>
    if a = target then some (some prev) else before next target fuel (some a) (next a)

/-- Takes a target out: its predecessor, or the head, gets its link. An inner
`none` means that the target was not met. -/
def unlink (next : α → Option α) (target : α) (fuel : ℕ) (head : Option α) :
    Option (Option ((α → Option α)×Option α)) :=
  match before next target fuel none head with
  | none => none
  | some none => some none
  | some (some none) => some (some (next,next target))
  | some (some (some p)) => some (some (update next p (next target),head))

lemma Chain.push (h : Chain next head l)
    {a : α} (ha : a ∉ l) : Chain (update next a head) (some a) (a::l) := by
  refine ⟨rfl,?_⟩
  rw [update_self]
  refine h.frame (fun b hb => update_of_ne ?_ _ _)
  rintro rfl
  exact ha hb

lemma before_found {target : α}
    {prev head : Option α} (h : Chain next head (first++target::rest))
    (hl : (first++target::rest).length ≤ fuel) (ht : target ∉ first) :
    before next target fuel prev head = some (some (first.getLast?.or prev)) := by
  induction first generalizing head prev fuel with
  | nil =>
    obtain ⟨fuel,rfl⟩ : ∃ k, fuel = k+1 := ⟨fuel-1,by simp at hl; omega⟩
    rw [h.1,before,if_pos rfl]
    rfl
  | cons a first ih =>
    obtain ⟨fuel,rfl⟩ : ∃ k, fuel = k+1 := ⟨fuel-1,by simp at hl; omega⟩
    rw [mem_cons,not_or] at ht
    rw [h.1,before,if_neg (Ne.symm ht.1),ih h.2 (by simpa using hl) ht.2]
    cases first with
    | nil => rfl
    | cons b first => simp [getLast?_cons]

lemma Chain.skip {p target : α}
    (h : Chain next head (first++p::target::rest)) (hn : (first++p::target::rest).Nodup) :
    Chain (update next p (next target)) head (first++p::rest) := by
  induction first generalizing head with
  | nil =>
    obtain ⟨hhead,hp,hrest⟩ := h
    refine ⟨hhead,?_⟩
    rw [update_self]
    refine hrest.frame (fun b hb => update_of_ne ?_ _ _)
    rintro rfl
    simp [hb] at hn
  | cons a first ih =>
    obtain ⟨hhead,hrest⟩ := h
    refine ⟨hhead,?_⟩
    have ha : a ≠ p := by
      rintro rfl
      simp at hn
    rw [update_of_ne ha]
    exact ih hrest (nodup_cons.mp hn).2

lemma unlink_chain {target : α}
    (h : Chain next head l) (hn : l.Nodup) (hl : l.length ≤ fuel) (ht : target ∈ l) :
    ∃ next' head', unlink next target fuel head = some (some (next',head')) ∧
      Chain next' head' (l.erase target) ∧ ∀ a, a ∉ l.erase target → next' a = next a := by
  obtain ⟨first,rest,rfl⟩ := append_of_mem ht
  have hfirst : target ∉ first :=
    fun hmem => disjoint_of_nodup_append hn hmem mem_cons_self
  rw [unlink,before_found h hl hfirst,erase_append_right _ hfirst,erase_cons_head]
  rcases eq_nil_or_concat first with rfl | ⟨first,p,rfl⟩
  · exact ⟨next,next target,rfl,h.2,fun _ _ => rfl⟩
  rw [concat_eq_append,getLast?_append,getLast?_singleton]
  rw [concat_append] at h hn
  rw [append_assoc,singleton_append]
  refine ⟨_,head,rfl,h.skip hn,fun a ha => update_of_ne ?_ _ _⟩
  rintro rfl
  simp at ha

section
variable {ι : Type*} [DecidableEq ι] {next : α → Option α} {heads : ι → Option α}
  {lists : ι → List α} (hc : ∀ b, Chain next (heads b) (lists b))
include hc

lemma push_family {b : ι} {a : α} (ha : ∀ c, a ∉ lists c) (c : ι) :
    Chain (update next a (heads b)) (update heads b (some a) c)
      (update lists b (a::lists b) c) := by
  by_cases hcb : c = b
  · subst hcb
    rw [update_self,update_self]
    exact (hc c).push (ha c)
  rw [update_of_ne hcb,update_of_ne hcb]
  refine (hc c).frame (fun x hx => update_of_ne ?_ _ _)
  rintro rfl
  exact ha c hx

lemma unlink_family (hn : ∀ b, (lists b).Nodup)
    (hd : ∀ b c a, a ∈ lists b → a ∈ lists c → b = c) {b : ι} {target : α}
    (ht : target ∈ lists b) (hl : (lists b).length ≤ fuel) :
    ∃ next' head', unlink next target fuel (heads b) = some (some (next',head')) ∧
      ∀ c, Chain (update next' target none) (update heads b head' c)
        ((lists c).erase target) := by
  obtain ⟨next',head',hun,hchain,hframe⟩ := unlink_chain (hc b) (hn b) hl ht
  refine ⟨next',head',hun,fun c => ?_⟩
  by_cases hcb : c = b
  · subst hcb
    rw [update_self]
    refine hchain.frame (fun a ha => update_of_ne ?_ _ _)
    rintro rfl
    exact (hn c).not_mem_erase ha
  have hfree : target ∉ lists c := fun hmem => hcb (hd c b target hmem ht)
  rw [update_of_ne hcb,erase_of_not_mem hfree]
  refine (hc c).frame (fun a ha => ?_)
  have hat : a ≠ target := fun heq => hfree (heq ▸ ha)
  rw [update_of_ne hat]
  exact hframe a (fun hmem => hcb (hd c b a ha (mem_of_mem_erase hmem)))

end

end

end MoQiOS.Chains
