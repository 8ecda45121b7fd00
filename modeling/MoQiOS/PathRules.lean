import Mathlib.Data.List.DropRight
import Mathlib.Data.List.TakeWhile

/-!
# Path rules of mounted volumes

`normalizeAbs` collapses an absolute path in one pass, with the output buffer
as the stack of its components. A path denotes the stack of names its pieces
build, and the buffer holds that stack, printed, after every piece.
-/

namespace MoQiOS.PathRules

open List

def slash : UInt8 := 47

def dot : List UInt8 := [46]

def dotdot : List UInt8 := [46,46]

def maxPath : ℕ := 255

/-- Back to the slash of the last component, and over it. -/
def cutBack (out : List UInt8) : List UInt8 := (out.rdropWhile (· ≠ slash)).dropLast

/-- What is left of the path is read one component a turn. -/
def collapse : ℕ → List UInt8 → List UInt8 → Option (List UInt8)
  | 0, out, _ => some out
  | n+1, out, rest =>
    let text := rest.dropWhile (· = slash)
    if text = [] then some out
    else
      let comp := text.takeWhile (· ≠ slash)
      let rest := text.dropWhile (· ≠ slash)
      if comp = dot then collapse n out rest
      else if comp = dotdot then collapse n (cutBack out) rest
      else if maxPath < out.length+1+comp.length then none
      else collapse n (out++slash::comp) rest

def normalizeAbs (path : List UInt8) : Option (List UInt8) :=
  if path = [] ∨ path.head? ≠ some slash ∨ maxPath < path.length then none
  else (collapse path.length [] path).map fun out => if out = [] then [slash] else out

inductive CwdJoin where
  | keep
  | path (p : List UInt8)
  | tooLong
  deriving DecidableEq

def isPlain (name : List UInt8) : Bool :=
  decide (slash ∉ name) && decide (name ≠ dot) && decide (name ≠ dotdot)

/-- The names `tmp`, `dev` and `proc`. -/
def trees : List (List UInt8) := [[116,109,112],[100,101,118],[112,114,111,99]]

def namesRootTree (name : List UInt8) : Bool :=
  trees.any fun t => decide (name.take t.length = t) &&
    (decide (name.length = t.length) || decide (name[t.length]? = some slash))

/-- A relative base counts from the root. -/
def rooted (base : List UInt8) : List UInt8 :=
  if base.head? = some slash then base else slash::base

def absJoin (base name : List UInt8) : CwdJoin :=
  let tmp := rooted base++slash::name
  if 512 < tmp.length then .tooLong
  else
    match normalizeAbs tmp with
    | none => .tooLong
    | some abs =>
      if name.getLast? = some slash ∧ 1 < abs.length then
        if 256 < abs.length+1 then .tooLong else .path (abs++[slash])
      else if 1 < abs.length ∧ isPlain (abs.drop 1) ∧ !namesRootTree (abs.drop 1) then
        .path (abs.drop 1)
      else .path abs

def components (path : List UInt8) : List (List UInt8) := path.splitOnP (· = slash)

def enter (stack : List (List UInt8)) (name : List UInt8) : List (List UInt8) :=
  if name = [] ∨ name = dot then stack
  else if name = dotdot then stack.dropLast
  else stack++[name]

def walk (stack : List (List UInt8)) (path : List UInt8) : List (List UInt8) :=
  (components path).foldl enter stack

def printed (stack : List (List UInt8)) : List UInt8 := stack.flatMap (slash::·)

def render (stack : List (List UInt8)) : List UInt8 :=
  if stack = [] then [slash] else printed stack

structure Proper (name : List UInt8) : Prop where
  full : name ≠ []
  whole : slash ∉ name
  here : name ≠ dot
  up : name ≠ dotdot

variable {stack : List (List UInt8)} {comp rest : List UInt8}

theorem components_whole (h : slash ∉ comp) : components comp = [comp] :=
  splitOnP_eq_singleton fun _ hx => decide_eq_false fun he => h (he ▸ hx)

theorem walk_append (stack : List (List UInt8)) (p q : List UInt8) :
    walk stack (p++slash::q) = walk (walk stack p) q := by
  rw [walk,components,splitOnP_append_cons p q rfl,foldl_append]
  rfl

theorem walk_nil : walk stack [] = stack := rfl

theorem walk_slash (stack : List (List UInt8)) (path : List UInt8) :
    walk stack (slash::path) = walk stack path := walk_append stack [] path

theorem walk_skip (path : List UInt8) : walk stack (path.dropWhile (· = slash)) = walk stack path := by
  induction path with
  | nil => rfl
  | cons c path ih =>
    by_cases hc : c = slash
    · subst hc
      rw [dropWhile_cons_of_pos (p := (· = slash)) rfl,ih,walk_slash]
    · rw [dropWhile_cons_of_neg (by simpa using hc)]

theorem walk_comp (hc : slash ∉ comp) (hr : rest = [] ∨ rest.head? = some slash) :
    walk stack (comp++rest) = walk (enter stack comp) rest := by
  have hone : walk stack comp = enter stack comp := by
    rw [walk,components_whole hc]
    rfl
  rcases rest with _ | ⟨c,rest⟩
  · rw [append_nil,hone,walk_nil]
  · obtain rfl : c = slash := by simpa using hr
    rw [walk_append,hone,walk_slash]

theorem enter_proper (h : Proper comp) : enter stack comp = stack++[comp] := by
  rw [enter,if_neg (not_or.mpr ⟨h.full,h.here⟩),if_neg h.up]

theorem printed_concat (stack : List (List UInt8)) (comp : List UInt8) :
    printed (stack++[comp]) = printed stack++slash::comp := by
  simp [printed]

theorem cutBack_printed (h : ∀ n ∈ stack, Proper n) :
    cutBack (printed stack) = printed stack.dropLast := by
  rcases eq_nil_or_concat' stack with rfl | ⟨s,n,rfl⟩
  · rfl
  have hn : ∀ a ∈ n.reverse, decide (a ≠ slash) = true := fun a ha =>
    decide_eq_true fun he => (h n (by simp)).whole (he ▸ mem_reverse.mp ha)
  rw [printed_concat,cutBack,rdropWhile,reverse_append,reverse_cons,append_assoc,
    dropWhile_append_of_pos hn]
  simp

/-- The loop leaves the buffer with the printed stack of the whole path. -/
theorem collapse_eq {n : ℕ} (hs : ∀ n ∈ stack, Proper n) (hn : rest.length ≤ n)
    (hfit : (printed stack).length+rest.length ≤ maxPath)
    (hr : rest = [] ∨ rest.head? = some slash) :
    collapse n (printed stack) rest = some (printed (walk stack rest)) ∧
      (printed (walk stack rest)).length ≤ maxPath ∧ ∀ n ∈ walk stack rest, Proper n := by
  induction n generalizing stack rest with
  | zero =>
    obtain rfl := length_eq_zero_iff.mp (Nat.le_zero.mp hn)
    exact ⟨rfl,hfit,hs⟩
  | succ n ih =>
    rw [collapse,← walk_skip]
    have hshort : rest.dropWhile (· = slash) = [] ∨
        (rest.dropWhile (· = slash)).length < rest.length := by
      rcases hr with rfl | hhead
      · exact .inl rfl
      · obtain ⟨r,rfl⟩ : ∃ r, rest = slash::r := ⟨_,eq_cons_of_mem_head? hhead⟩
        exact .inr (Nat.lt_succ_of_le (length_dropWhile_le _ r))
    have hfirst := head?_dropWhile_not (fun c => decide (c = slash)) rest
    generalize rest.dropWhile (· = slash) = text at hshort hfirst ⊢
    by_cases ht : text = []
    · rw [if_pos ht,ht]
      exact ⟨rfl,(Nat.le_add_right _ _).trans hfit,hs⟩
    obtain ⟨c,text,rfl⟩ := exists_cons_of_ne_nil ht
    rw [if_neg ht]
    have hshort := hshort.resolve_left ht
    -- the component and what follows it
    have hsplit := takeWhile_append_dropWhile (p := (· ≠ slash)) (l := c::text)
    have hwhole : slash ∉ (c::text).takeWhile (· ≠ slash) := fun hm => by
      simpa using mem_takeWhile_imp hm
    have hfull : (c::text).takeWhile (· ≠ slash) ≠ [] := by
      rw [takeWhile_cons_of_pos (by simpa using hfirst)]
      exact cons_ne_nil _ _
    have hnext := head?_dropWhile_not (fun c => decide (c ≠ slash)) (c::text)
    generalize (c::text).takeWhile (· ≠ slash) = comp at hsplit hwhole hfull ⊢
    generalize (c::text).dropWhile (· ≠ slash) = next at hsplit hnext ⊢
    have hlen := congrArg length hsplit
    rw [length_append] at hlen
    have hnext : next = [] ∨ next.head? = some slash := by
      cases next <;> simp_all
    rw [← hsplit,walk_comp hwhole hnext]
    by_cases hdot : comp = dot
    · rw [if_pos hdot,enter,if_pos (.inr hdot)]
      exact ih hs (by omega) (by omega) hnext
    rw [if_neg hdot]
    by_cases hup : comp = dotdot
    · rw [if_pos hup,enter,if_neg (not_or.mpr ⟨hfull,hdot⟩),if_pos hup,cutBack_printed hs]
      have hle : (printed stack.dropLast).length ≤ (printed stack).length := by
        rw [← cutBack_printed hs,cutBack,length_dropLast]
        exact (Nat.sub_le _ _).trans ( rdropWhile_prefix _ _).length_le
      exact ih (fun n hn => hs n (dropLast_subset _ hn)) (by omega) (by omega) hnext
    have hp : Proper comp := ⟨hfull,hwhole,hdot,hup⟩
    have hpos := length_pos_of_ne_nil hfull
    rw [if_neg hup,if_neg (by omega),enter_proper hp,← printed_concat]
    refine ih ?_ (by omega) ?_ hnext
    · intro n hn
      rcases mem_append.mp hn with hn | hn
      · exact hs n hn
      · rwa [mem_singleton.mp hn]
    · rw [printed_concat,length_append,length_cons]
      omega

theorem normalizeAbs_eq {path : List UInt8} (habs : path.head? = some slash)
    (hlen : path.length ≤ maxPath) : normalizeAbs path = some (render (walk [] path)) ∧
      (render (walk [] path)).length ≤ maxPath ∧ ∀ n ∈ walk [] path, Proper n := by
  have hnil : ∀ n ∈ ([] : List (List UInt8)), Proper n := by simp
  obtain ⟨hc,hfit,hp⟩ := collapse_eq hnil le_rfl (by simpa [printed]) (.inr habs)
  have hne : path ≠ [] := by rintro rfl; cases habs
  have hempty : ∀ s, (if printed s = [] then [slash] else printed s) = render s := by
    intro s
    cases s <;> simp [render,printed]
  rw [normalizeAbs,if_neg (by simp [hne,habs,hlen]),show collapse _ [] path = _ from hc,
    Option.map_some,hempty]
  refine ⟨rfl,?_,hp⟩
  rw [render]
  split_ifs
  · decide
  · exact hfit

theorem components_printed (hs : ∀ n ∈ comp::stack, Proper n) :
    components (comp++printed stack) = comp::stack := by
  induction stack generalizing comp with
  | nil => simpa [printed] using components_whole (hs comp (by simp)).whole
  | cons n stack ih =>
    have hnext := ih fun m hm => hs m (mem_cons_of_mem _ hm)
    have hone := components_whole (hs comp (by simp)).whole
    rw [components] at hnext hone ⊢
    rw [printed,flatMap_cons,cons_append,splitOnP_append_cons _ _ rfl,hone]
    exact congrArg (comp::·) hnext

theorem render_head (stack : List (List UInt8)) : ∃ q, render stack = slash::q := by
  cases stack with
  | nil => exact ⟨[],rfl⟩
  | cons n stack => exact ⟨n++printed stack,rfl⟩

theorem walk_render (hs : ∀ n ∈ stack, Proper n) : walk [] (render stack) = stack := by
  have hall : ∀ s t : List (List UInt8), (∀ n ∈ t, Proper n) → t.foldl enter s = s++t := by
    intro s t ht
    induction t generalizing s with
    | nil => simp
    | cons n t ih =>
      rw [foldl_cons,enter_proper (ht n (by simp)),ih _ fun m hm => ht m (mem_cons_of_mem _ hm),
        append_assoc]
      rfl
  cases stack with
  | nil => rfl
  | cons n stack =>
    have hprint : render (n::stack) = slash::(n++printed stack) := rfl
    rw [hprint,walk_slash,walk,components_printed hs]
    exact hall [] _ hs

end MoQiOS.PathRules
