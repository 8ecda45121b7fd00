import Mathlib

/-!
# Moving the pages of a mapping

`moveMapping` copies the present pages of a range to fresh frames at the new
place, puts a fresh page of zeros there for every other one, and unmaps the old
range. An entry that is not present may still hold a page, swapped out or
without access rights; the loop takes it for a page that was never touched.
-/

namespace MoQiOS.PageMoves

open Function

/-- An entry of the page tables; `φ` are its bits besides the address. -/
inductive Entry (φ : Type*) where
  | empty
  | swapped (slot : ℕ)
  | protNone (frame : ℕ) (flags : φ)
  | present (frame : ℕ) (flags : φ)
  deriving DecidableEq

structure Space (α φ : Type*) where
  entry : ℕ → Entry φ
  memory : ℕ → α

/-- Whether limits and the demotion of huge blocks allow the move, and what the
allocator and the page tables have for its pages. -/
structure Env where
  allowed : Bool
  frame : ℕ → Option ℕ
  tables : ℕ → Bool

variable {α φ : Type*}

def getPageEntry (s : Space α φ) (page : ℕ) : Option (ℕ×φ) :=
  match s.entry page with
  | .present frame flags => some (frame,flags)
  | _ => none

section
variable (env : Env) (zero : α) (defaultFlags : φ) (src dst oldPages : ℕ)

def mapFresh (s : Space α φ) (k : ℕ) (contents : α) (flags : φ) : Option (Space α φ) :=
  match env.frame k with
  | none => none
  | some frame =>
    if env.tables k then
      some ⟨update s.entry (dst+k) (.present frame flags),update s.memory frame contents⟩
    else none

def movePage (s : Space α φ) (k : ℕ) : Option (Space α φ) :=
  match if k < oldPages then getPageEntry s (src+k) else none with
  | some (frame,flags) => mapFresh env dst s k (s.memory frame) flags
  | none => mapFresh env dst s k zero defaultFlags

/-- The first `n` rounds. -/
def moveLoop (s : Space α φ) : ℕ → Option (Space α φ)
  | 0 => some s
  | n+1 => (moveLoop s n).bind fun t => movePage env zero defaultFlags src dst oldPages t n

def unmapRange (base n : ℕ) (s : Space α φ) : Space α φ :=
  { s with entry := fun p => if base ≤ p ∧ p < base+n then .empty else s.entry p }

/-- No value: an error, with what was mapped so far unmapped again. -/
def moveMapping (newPages : ℕ) (s : Space α φ) : Option (Space α φ) :=
  if src < dst+newPages ∧ dst < src+oldPages ∨ env.allowed = false then none
  else (moveLoop env zero defaultFlags src dst oldPages s newPages).map (unmapRange src oldPages)

/-- What the loop puts at place `k`. -/
def moved (s : Space α φ) (k : ℕ) : α×φ :=
  (if k < oldPages then getPageEntry s (src+k) else none).elim (zero,defaultFlags)
    fun e => (s.memory e.1,e.2)

end

/-- The allocator gives each round a frame of its own that no page has. -/
structure Fresh (env : Env) (s : Space α φ) : Prop where
  unused : ∀ k f, env.frame k = some f → ∀ p flags, s.entry p ≠ .present f flags
  inj : ∀ k l f, env.frame k = some f → env.frame l = some f → k = l

/-- After `n` rounds. -/
structure Copied (env : Env) (dst : ℕ) (want : ℕ → α×φ) (s t : Space α φ) (n : ℕ) : Prop where
  outside : ∀ p, p < dst ∨ dst+n ≤ p → t.entry p = s.entry p
  old : ∀ f, (∀ k < n, env.frame k ≠ some f) → t.memory f = s.memory f
  placed : ∀ k < n, ∃ f, env.frame k = some f ∧ t.entry (dst+k) = .present f (want k).2 ∧
    t.memory f = (want k).1

variable {env : Env} {zero : α} {defaultFlags : φ} {src dst oldPages newPages n : ℕ}
  {want : ℕ → α×φ} {s t u : Space α φ}

lemma Copied.mapFresh (h : Copied env dst want s t n) (hf : Fresh env s)
    (hm : mapFresh env dst t n (want n).1 (want n).2 = some u) : Copied env dst want s u (n+1) := by
  rw [PageMoves.mapFresh] at hm
  split at hm
  · cases hm
  rename_i frame hframe
  split_ifs at hm
  cases hm
  constructor
  · intro p hp
    dsimp only
    rw [update_of_ne (by omega)]
    exact h.outside p (by omega)
  · intro f hno
    dsimp only
    rw [update_of_ne]
    · exact h.old f fun k hk => hno k (by omega)
    · rintro rfl
      exact hno n (by omega) hframe
  · intro k hk
    dsimp only
    by_cases hkn : k = n
    · subst hkn
      exact ⟨frame,hframe,update_self ..,update_self ..⟩
    obtain ⟨f,hkf,hentry,hmem⟩ := h.placed k (by omega)
    refine ⟨f,hkf,?_,?_⟩
    · rwa [update_of_ne (by omega)]
    · rwa [update_of_ne]
      rintro rfl
      exact hkn (hf.inj k n _ hkf hframe)

/-- The pages the loop has still to read are as they were. -/
lemma Copied.moved_eq (h : Copied env dst want s t n) (hf : Fresh env s)
    (hapart : dst ≤ src ∨ src+oldPages ≤ dst) :
    moved zero defaultFlags src oldPages t n = moved zero defaultFlags src oldPages s n := by
  rw [moved,moved]
  split_ifs with hk
  · have hsame := h.outside (src+n) (by omega)
    rw [getPageEntry,getPageEntry,hsame]
    cases he : s.entry (src+n) with
    | present frame flags =>
      have hmem := h.old frame fun k _ hkf => hf.unused k frame hkf _ flags he
      simp [hmem]
    | _ => rfl
  · rfl

lemma moveLoop_copied (hf : Fresh env s) (hapart : dst ≤ src ∨ src+oldPages ≤ dst)
    (hm : moveLoop env zero defaultFlags src dst oldPages s n = some t) :
    Copied env dst (moved zero defaultFlags src oldPages s) s t n := by
  induction n generalizing t with
  | zero =>
    cases hm
    exact ⟨fun _ _ => rfl,fun _ _ => rfl,fun k hk => absurd hk (Nat.not_lt_zero k)⟩
  | succ n ih =>
    rw [moveLoop,Option.bind_eq_some_iff] at hm
    obtain ⟨v,hv,hpage⟩ := hm
    have hcopied := ih hv
    have hmoved : moved zero defaultFlags src oldPages v n = moved zero defaultFlags src oldPages s n :=
      hcopied.moved_eq hf hapart
    refine hcopied.mapFresh hf ?_
    rw [← hmoved,moved]
    rw [movePage] at hpage
    split at hpage
    · rename_i hsome
      rwa [hsome]
    · rename_i hnone
      rwa [hnone]

def freeFrames : Env := ⟨true,fun k => some (100+k),fun _ => true⟩

def onePage : Space ℕ ℕ := ⟨fun p => if p = 1 then .present 7 5 else .empty,fun f => if f = 7 then 42 else 0⟩

/-- A page that was swapped out and one without access rights. -/
def parkedPages : Space ℕ ℕ :=
  ⟨fun p => if p = 1 then .swapped 3 else if p = 2 then .protNone 7 5 else .empty,onePage.memory⟩

lemma onePage_fresh : Fresh freeFrames onePage := by
  refine ⟨fun k f hk p flags he => ?_,fun k l f hk hl => ?_⟩
  · cases hk
    dsimp only [onePage] at he
    split_ifs at he
    injection he
    omega
  · cases hk
    injection hl
    omega

end MoQiOS.PageMoves
