import MoQiOS.Runs
import MoQiOS.TmpfsSteps

/-!
# Runs of the tmpfs namespace

The tree in every state reached, and which paths lead where.
-/

namespace MoQiOS.Tmpfs
open Chains Runs List
set_option maxRecDepth 9000

def pieces (w : Name) : List Name := (w.splitOn slash).filter (· ≠ [])

def components (path : Name) : List Name := pieces (stripPrefix path)

def Trailing (path : Name) : Prop :=
  stripPrefix path ≠ [slash] ∧ (stripPrefix path).getLast? = some slash

variable {comp : Name}

lemma not_slash (hc : slash ∉ comp) : ∀ x ∈ comp, (x == slash) = false := by
  intro x hx
  rw [beq_eq_false_iff_ne]
  rintro rfl
  exact hc hx

lemma pieces_plain (hc : slash ∉ comp) (hne : comp ≠ []) : pieces comp = [comp] := by
  rw [pieces,List.splitOn,splitOnP_eq_singleton (not_slash hc)]
  simp [hne]

lemma pieces_cons (hc : slash ∉ comp) (hne : comp ≠ []) (rest : Name) :
    pieces (comp++slash::rest) = comp::pieces rest := by
  rw [pieces,List.splitOn,splitOnP_append_cons_of_forall_mem (not_slash hc) slash (by simp)]
  simp [hne,pieces,List.splitOn]

lemma pieces_slash (rest : Name) : pieces (slash::rest) = pieces rest := by
  have hnone : ∀ x ∈ ([] : Name), (x == slash) = false := by simp
  rw [pieces,List.splitOn,← nil_append (slash::rest),
    splitOnP_append_cons_of_forall_mem hnone slash (by simp)]
  simp [pieces,List.splitOn]

variable {rest : Name}

lemma rest_of_slash (comp : Name) (hlast : (comp++slash::rest).getLast? ≠ some slash) :
    rest ≠ [] ∧ rest.getLast? ≠ some slash := by
  have hne : rest ≠ [] := by
    rintro rfl
    simp at hlast
  obtain ⟨init,c,rfl⟩ := eq_nil_or_concat rest |>.resolve_left hne
  simp [getLast?_append,getLast?_cons] at hlast ⊢
  exact hlast

lemma pieces_ne_nil (comp : Name) (hc : slash ∉ comp) (hne : comp++rest ≠ [])
    (hlast : (comp++rest).getLast? ≠ some slash) : pieces (comp++rest) ≠ [] := by
  induction rest generalizing comp with
  | nil =>
    rw [append_nil] at hne ⊢
    simp [pieces_plain hc hne]
  | cons c rest ih =>
    by_cases hs : c = slash
    · subst hs
      obtain ⟨hrest,hlast'⟩ := rest_of_slash comp hlast
      by_cases hcomp : comp = []
      · rw [hcomp,nil_append,pieces_slash]
        exact ih [] (by simp) hrest hlast'
      · simp [pieces_cons hc hcomp]
    · rw [append_cons] at hne hlast ⊢
      exact ih (comp++[c]) (by simp [hc,Ne.symm hs]) hne hlast

def walk (s : State) (p : ℕ) : List Name → Option ℕ
  | [] => some p
  | name :: rest =>
    match findEntry s name p with
    | none => none
    | some d => if rest = [] then some d else if (s.entries d).isDir then walk s d rest else none

lemma climb_last {s : State} {i : ℕ} {l : List ℕ} (hl : Chain (up s) (some i) l) :
    l.getLast? = some 0 := by
  induction l generalizing i with
  | nil => cases hl
  | cons a rest ih =>
    obtain rfl : i = a := Option.some.inj hl.1
    have hrest := hl.2
    rw [up] at hrest
    split_ifs at hrest with h0
    · cases rest with
      | nil => rw [h0]; rfl
      | cons b rest => cases hrest.1
    · rw [getLast?_cons,ih hrest]
      rfl

section
variable {s : State} (h : Tree s)
include h

lemma Tree.resolveLoop_walk (comp : Name) {p : ℕ} (hp : Named s p) (hc : slash ∉ comp)
    (hne : comp++rest ≠ []) (hlast : (comp++rest).getLast? ≠ some slash) :
    (match resolveLoop s p comp rest with
      | none => none
      | some (q,name) => if name = [slash] then some 0 else findEntry s name q) =
    walk s p (pieces (comp++rest)) := by
  induction rest generalizing comp p with
  | nil =>
    rw [append_nil] at hne ⊢
    rw [pieces_plain hc hne,resolveLoop,if_neg hne,walk]
    have hplain : comp ≠ [slash] := by
      rintro rfl
      simp at hc
    by_cases hlen : maxNameLen < comp.length
    · rw [if_pos hlen]
      rcases hf : findEntry s comp p with _ | d
      · rfl
      obtain ⟨hn,-,hname⟩ := h.findEntry_some hf
      have hshort := h.short d hn
      rw [hname] at hshort
      exact absurd hlen (not_lt.mpr hshort)
    · rw [if_neg hlen]
      dsimp only
      rw [if_neg hplain]
      rcases findEntry s comp p with _ | d
      · rfl
      · rfl
  | cons c rest ih =>
    rw [resolveLoop]
    by_cases hs : c = slash
    · subst hs
      obtain ⟨hrest,hlast'⟩ := rest_of_slash comp hlast
      rw [if_pos rfl]
      by_cases hcomp : comp = []
      · rw [if_pos hcomp,hcomp,nil_append,pieces_slash]
        exact ih [] hp (by simp) hrest hlast'
      rw [if_neg hcomp,pieces_cons hc hcomp,walk]
      rcases hf : findEntry s comp p with _ | d
      · rfl
      have hmore : pieces rest ≠ [] := pieces_ne_nil [] (by simp) hrest hlast'
      dsimp only
      rw [if_neg hmore]
      split_ifs
      · exact ih [] (h.findEntry_some hf).1 (by simp) hrest hlast'
      · rfl
    · rw [if_neg hs,append_cons comp c rest]
      rw [append_cons] at hne hlast
      exact ih (comp++[c]) hp (by simp [hc,Ne.symm hs]) hne hlast

lemma Tree.walk_spec {names : List Name} {p : ℕ} {lp : List ℕ} (hp : Named s p)
    (hlp : Chain (up s) (some p) lp) (i : ℕ) :
    walk s p names = some i ↔ Named s i ∧ ∃ seg, Chain (up s) (some i) (seg++lp) ∧
      (seg.map (fun j => (s.entries j).name)).reverse = names := by
  induction names generalizing p lp with
  | nil =>
    rw [walk]
    constructor
    · rintro ⟨⟩
      exact ⟨hp,[],hlp,rfl⟩
    · rintro ⟨-,seg,hseg,hnames⟩
      obtain rfl : seg = [] := by simpa using hnames
      rw [hlp.head_eq]
      exact hseg.head_eq.symm
  | cons name names ih =>
    have hstep : ∀ d, Named s d → (s.entries d).parentIdx = p → Chain (up s) (some d) (d::lp) := by
      intro d hd hdp
      refine ⟨rfl,?_⟩
      rw [up,if_neg (h.parent_ne_zero hp hdp),hdp]
      exact hlp
    rw [walk]
    constructor
    · intro hw
      rcases hf : findEntry s name p with _ | d
      · rw [hf] at hw
        cases hw
      rw [hf] at hw
      obtain ⟨hd,hdp,hdn⟩ := h.findEntry_some hf
      dsimp only at hw
      split_ifs at hw with hlast hdir
      · cases hw
        exact ⟨hd,[i],hstep i hd hdp,by simp [hdn,hlast]⟩
      · obtain ⟨hi,seg,hseg,hnames⟩ := (ih hd (hstep d hd hdp)).mp hw
        exact ⟨hi,seg++[d],by simpa using hseg,by simp [hnames,hdn]⟩
    · rintro ⟨hi,seg,hseg,hnames⟩
      rcases eq_nil_or_concat seg with rfl | ⟨seg,d,rfl⟩
      · simp at hnames
      rw [concat_eq_append] at hseg hnames
      simp only [map_append,map_cons,map_nil,reverse_append,
        reverse_cons,reverse_nil,nil_append,singleton_append, List.cons.injEq] at hnames
      rw [append_assoc,singleton_append] at hseg
      have hd := h.climb_named hi hseg d (by simp)
      have hdp : (s.entries d).parentIdx = p := by
        have hup := hseg.suffix.2.head_eq
        rw [← hlp.head_eq,up] at hup
        split_ifs at hup
        exact Option.some.inj hup
      rw [h.findEntry_named hd hdp hnames.1]
      have hrest := (ih hd (hstep d hd hdp)).mpr ⟨hi,seg,hseg,hnames.2⟩
      dsimp only
      split_ifs with hlast hdir
      · rw [hlast,walk] at hrest
        exact hrest
      · exact hrest
      -- An entry with something below it is a directory.
      exfalso
      rcases eq_nil_or_concat seg with rfl | ⟨seg,k,rfl⟩
      · exact hlast (by simpa using hnames.2.symm)
      rw [concat_eq_append,append_assoc,singleton_append] at hseg
      have hk := h.climb_named hi hseg k (by simp)
      have hup := hseg.suffix.2.1
      rw [up] at hup
      split_ifs at hup with hk0
      have hparent := (h.parent k hk hk0).2
      rw [Option.some.inj hup] at hparent
      exact hdir hparent

lemma Tree.lookup_spec {path : Name} (ht : ¬Trailing path) (i : ℕ) :
    lookupLocked s path = some i ↔ Named s i ∧ ∃ l, Chain (up s) (some i) l ∧
      (l.dropLast.map (fun j => (s.entries j).name)).reverse = components path := by
  have hwalk : lookupLocked s path = walk s 0 (components path) := by
    rw [lookupLocked,components]
    simp only [resolvePath]
    by_cases hroot : stripPrefix path = [] ∨ stripPrefix path = [slash]
    · rw [if_pos hroot]
      rcases hroot with hr | hr <;> rw [hr] <;> rfl
    rw [not_or] at hroot
    have hlast : (stripPrefix path).getLast? ≠ some slash := fun heq => ht ⟨hroot.2,heq⟩
    rw [if_neg (not_or.mpr hroot),skipSlash]
    split_ifs with hhead
    · obtain ⟨rest,hrest⟩ : ∃ rest, stripPrefix path = slash::rest :=
        head?_eq_some_iff.mp hhead
      rw [hrest] at hlast ⊢
      obtain ⟨hne,hlast'⟩ := rest_of_slash [] hlast
      rw [pieces_slash]
      exact h.resolveLoop_walk [] h.root.1 (by simp) hne hlast'
    · exact h.resolveLoop_walk [] h.root.1 (by simp) hroot.1 hlast
  have hzero : Chain (up s) (some 0) [0] := ⟨rfl,rfl⟩
  rw [hwalk,h.walk_spec h.root.1 hzero]
  refine and_congr_right fun hi => ⟨?_,?_⟩
  · rintro ⟨seg,hseg,hnames⟩
    exact ⟨seg++[0],hseg,by simpa using hnames⟩
  · rintro ⟨l,hl,hnames⟩
    obtain ⟨first,rfl⟩ := getLast?_eq_some_iff.mp (climb_last hl)
    exact ⟨first,hl,by simpa using hnames⟩

end

def Next : State → Op → State → Prop := Guarded (fun _ _ => True) step

/-- From every named entry the way up ends at the root without a repetition,
parents are named directories that are not below their children, siblings
differ in name, and a path resolves to the entry whose way up it spells. -/
structure TreeSafe (s : State) : Prop where
  climbs : ∀ i, Named s i → ∃ l, Chain (up s) (some i) l ∧ l.Nodup ∧ l.getLast? = some 0
  parents : ∀ i, Named s i → i ≠ 0 →
    Named s (s.entries i).parentIdx ∧ (s.entries (s.entries i).parentIdx).isDir = true
  acyclic : ∀ i l, Named s i → i ≠ 0 → Chain (up s) (some (s.entries i).parentIdx) l → i ∉ l
  siblings : ∀ i j, Named s i → Named s j → (s.entries i).parentIdx = (s.entries j).parentIdx →
    (s.entries i).name = (s.entries j).name → i = j
  resolves : ∀ path i, ¬Trailing path → (lookupLocked s path = some i ↔ Named s i ∧
    ∃ l, Chain (up s) (some i) l ∧
      (l.dropLast.map (fun j => (s.entries j).name)).reverse = components path)

lemma Tree.safe {s : State} (h : Tree s) : TreeSafe s := by
  refine ⟨fun i hi => ?_,h.parent,fun i l hi h0 hl => ?_,h.apart,fun path i ht => h.lookup_spec ht i⟩
  · obtain ⟨l,hl⟩ := h.climbs i hi
    exact ⟨l,hl,hl.nodup,climb_last hl⟩
  · exact h.not_above_parent (h.parent i hi h0).1 rfl hl

theorem reached_tree_safe {s : State} (h : Reaches Next start s) : TreeSafe s := by
  have hstep : ∀ s op t, Tree s → Next s op t → Tree t := by
    rintro s op t hs ⟨-,rfl⟩
    exact hs.step op
  exact (invariant hstep h start_tree).safe

def operator : Caller := ⟨0,0,true,true,[]⟩

/-- `/tmp/a` is made, `/tmp/a/f` is created and the directory renamed to `/tmp/b`. -/
def makeAndRename : List Op :=
  [.mkdir [47,116,109,112,47,97] 0o777 0o022 operator,
    .openFile [47,116,109,112,47,97,47,102] true false operator 0x41 none 0o022,
    .rename [47,116,109,112,47,97] [47,116,109,112,47,98] .replace (some operator)]

theorem reached_tree_safe_renamed : let s := run step start makeAndRename
    lookupLocked s [47,116,109,112,47,98,47,102] = some 2 ∧ TreeSafe s :=
  ⟨by with_unfolding_all decide,
    reached_tree_safe (run_reaches (.start Next start) ⟨trivial,trivial,trivial,trivial⟩)⟩

/-- The directory `/tmp/a` is not found under `/tmp/a/`. -/
theorem trailing_slash_unresolved :
    let s := run step start [.mkdir [47,116,109,112,47,97] 0o777 0o022 operator]
    let path : Name := [47,116,109,112,47,97,47]
    Reaches Next start s ∧ Named s 1 ∧ (s.entries 1).isDir = true ∧ Chain (up s) (some 1) [1,0] ∧
      ([1,0].dropLast.map (fun j => (s.entries j).name)).reverse = components path ∧
      lookupLocked s path = none ∧
      (tmpfsOpenAuthorized s path false false operator 0 none 0).2 = -2 := by
  refine ⟨run_reaches (.start Next start) ⟨trivial,trivial⟩,⟨?_,?_⟩,?_,⟨rfl,?_,rfl⟩,?_⟩ <;>
    with_unfolding_all decide

end MoQiOS.Tmpfs
