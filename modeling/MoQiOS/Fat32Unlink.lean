import MoQiOS.Fat32Runs

/-!
# Deleting a FAT32 file that is opened meanwhile

A deletion looks at the reference count in one section under the lock, flushes
what is staged without the lock, and frees the chain in a last section that
looks at the slot again but not at its count. Calls of other tasks come between
the sections.
-/

namespace MoQiOS.Fat32

open Chains Function List Option Runs
set_option maxRecDepth 9000

section
variable (g : Geometry) (s : State)

def findOpen (name : List UInt8) : Option ℕ :=
  if isRootName name then
    (List.range s.fileCount).find? fun i => (s.files i).active && !(s.files i).unlinkPending &&
      !(s.files i).isDir && decide ((s.files i).name = name)
  else none

def openFileRetained (name : List UInt8) : State :=
  match findOpen s name with
  | none => s
  | some i => s.setFile i { s.files i with refCount := ((s.files i).refCount+1)%2^32 }

/-- Whether `closeFile` goes on to delete the file. -/
def closeSection (i : ℕ) : Bool×State :=
  let fi := s.files i
  if s.fileCount ≤ i ∨ fi.active = false ∨ fi.refCount = 0 then (false,s)
  else (fi.unlinkPending && decide (fi.refCount-1 = 0),s.setFile i { fi with refCount := fi.refCount-1 })

/-- `deleteFileInternal` up to the flush, with the first cluster if it comes to that. -/
def startDelete (i : ℕ) (allowPending : Bool) : Option ℕ×State :=
  let fi := s.files i
  if s.fileCount ≤ i ∨ fi.active = false ∨ (allowPending = false ∧ fi.unlinkPending) ∨ fi.isDir then
    (none,s)
  else if allowPending = false ∧ fi.firstCluster ∉ s.dir then (none,s)
  else
    let s := if allowPending then s else { s with dir := s.dir.erase fi.firstCluster }
    if fi.refCount ≠ 0 then (none,s.setFile i { fi with unlinkPending := true })
    else (some fi.firstCluster,s)

/-- `deleteFileInternal` from the flush on. -/
def finishDelete (i first : ℕ) (flushed : Bool) : State :=
  let same := (s.files i).active && decide ((s.files i).firstCluster = first)
  if !flushed then if same then s.setFile i { s.files i with unlinkPending := true } else s
  else if !same then s
  else (reclaim g s i).2

/-- Without other calls in between the sections are the whole function. -/
lemma deleteFileInternal_sections (i : ℕ) (allowPending : Bool) (staged : List Extent) :
    (deleteFileInternal g s i allowPending staged).map Prod.snd =
      match startDelete s i allowPending with
      | (none,t) => some t
      | (some first,t) => (flushStaged g staged t).map fun r => finishDelete g r.2 i first r.1 := by
  rw [deleteFileInternal,startDelete]
  dsimp only
  split
  · rfl
  split
  · rfl
  generalize (if allowPending = true then s else {s with dir := s.dir.erase (s.files i).firstCluster}) = t
  split
  · rfl
  dsimp only
  rcases flushStaged g staged t with _ | ⟨ok,u⟩
  · rfl
  dsimp only [map_some]
  unfold finishDelete
  dsimp only
  split_ifs <;> rfl

end

/-- A deletion that was called, and one in its flush. -/
inductive Deletion where
  | none
  | called (i : ℕ) (allowPending : Bool)
  | flushing (i first : ℕ)
  deriving DecidableEq

def Deletion.flushes : Deletion → ℕ → Bool
  | .flushing j _, i => decide (j = i)
  | _, _ => false

structure World (τ : Type*) where
  fs : State
  pc : τ → Deletion

/-- `write` is also a write of a flush. -/
inductive Section (τ : Type*) where
  | openRetained (name : List UInt8)
  | retain (i : ℕ)
  | read (i offset count : ℕ) (keep : ℕ → ℕ → ℕ → Bool)
  | write (i offset : ℕ) (buf : List UInt8)
  | close (t : τ) (i : ℕ)
  | delete (t : τ) (i : ℕ)
  | start (t : τ)
  | finish (t : τ) (flushed : Bool)

variable {τ : Type*}

def World.next [DecidableEq τ] (g : Geometry) (w : World τ) : Section τ → World τ
  | .openRetained name => { w with fs := openFileRetained w.fs name }
  | .retain i => { w with fs := retainFile w.fs i }
  | .read i offset count keep =>
    { w with fs := ((readFile g w.fs i offset count keep).map fun r => r.2.2).getD w.fs }
  | .write i offset buf => { w with fs := ((writeFile g w.fs i offset buf).map Prod.snd).getD w.fs }
  | .close t i =>
    let r := closeSection w.fs i
    ⟨r.2,if r.1 then update w.pc t (.called i true) else w.pc⟩
  -- the two fields are read before the lock is taken
  | .delete t i => { w with pc := update w.pc t (.called i (decide (i < w.fs.fileCount) &&
      (w.fs.files i).unlinkPending && decide ((w.fs.files i).refCount = 0))) }
  | .start t =>
    match w.pc t with
    | .called i allowPending =>
      let r := startDelete w.fs i allowPending
      ⟨r.2,update w.pc t (r.1.elim .none (.flushing i))⟩
    | _ => w
  | .finish t flushed =>
    match w.pc t with
    | .flushing i first => ⟨finishDelete g w.fs i first flushed,update w.pc t .none⟩
    | _ => w

/-- A task is in one call at a time. -/
def World.ready (w : World τ) : Section τ → Prop
  | .close t _ | .delete t _ => w.pc t = .none
  | _ => True

/-- No reference is taken on a file while a deletion of it is in its flush. -/
def World.spared (w : World τ) : Section τ → Prop
  | .openRetained name => ∀ i ∈ findOpen w.fs name, ∀ t, (w.pc t).flushes i = false
  | .retain i => ∀ t, (w.pc t).flushes i = false
  | _ => True

def World.calm (w : World τ) (c : Section τ) : Prop := w.ready c ∧ w.spared c

instance (w : World τ) (c : Section τ) : Decidable (w.ready c) := by
  cases c <;> dsimp only [World.ready] <;> infer_instance

instance [Fintype τ] (w : World τ) (c : Section τ) : Decidable (w.calm c) := by
  cases c <;> dsimp only [World.calm, World.ready, World.spared] <;> infer_instance

variable {g : Geometry} {s t : State} {i : ℕ}

def State.counts (s : State) : ℕ×(ℕ → ℕ) := (s.fileCount,fun j => (s.files j).refCount)

lemma setFile_counts {fi : FileInfo} (hf : fi.refCount = (s.files i).refCount) :
    (s.setFile i fi).counts = s.counts := by
  refine Prod.ext rfl (funext fun j => ?_)
  rcases setFile_cases s i fi j with ⟨rfl,hj⟩ | ⟨-,hj⟩
  · simp only [State.counts,hj,hf]
  · simp only [State.counts,hj]

lemma noteWalk_counts (c ci : ℕ) : (noteWalk s i c ci).counts = s.counts := by
  rw [noteWalk]
  split_ifs
  · exact setFile_counts rfl
  · rfl

lemma allocZeroed_counts {nc : ℕ} (ha : allocZeroed g s = some (nc,t)) : t.counts = s.counts := by
  obtain ⟨⟨c,u⟩,hc,hu⟩ := map_eq_some_iff.mp ha
  obtain ⟨c',-,hc'⟩ := map_eq_some_iff.mp hc
  cases hc'
  cases hu
  rfl

lemma extendRound_counts {ok : Bool} (he : extendRound g s i = some (ok,t)) : t.counts = s.counts := by
  rw [extendRound] at he
  split at he
  · split at he
    · cases he
    · cases he
      rfl
    split at he
    · cases he
      rfl
    · rename_i ha
      have hv := allocZeroed_counts ha
      cases he
      refine (setFile_counts ?_).trans hv
      rfl
  · split at he
    · cases he
      rfl
    · rename_i ha
      have hv := allocZeroed_counts ha
      cases he
      refine (setFile_counts ?_).trans hv
      rfl

lemma extendFile_counts {n : ℕ} {ok : Bool} (he : extendFile g i n s = some (ok,t)) :
    t.counts = s.counts := by
  induction n generalizing s with
  | zero =>
    cases he
    rfl
  | succ n ih =>
    rw [extendFile] at he
    split at he
    · cases he
    · rename_i hr
      cases he
      exact extendRound_counts hr
    · rename_i hr
      exact (ih he).trans (extendRound_counts hr)

lemma writeLoop_counts (offset : ℕ) (buf : List UInt8) (n : ℕ) (s : State) (c ci w : ℕ) :
    (writeLoop g i offset buf n s c ci w).1.counts = s.counts := by
  induction n generalizing s c ci w with
  | zero => rfl
  | succ n ih =>
    rw [writeLoop]
    split_ifs
    all_goals first
      | rfl
      | dsimp only
        split
        · rfl
        · rw [ih,noteWalk_counts]
          rfl

lemma finishWrite_counts (offset n : ℕ) : (finishWrite i offset n s).2.counts = s.counts := by
  have hs : (s.setFile i {s.files i with size := offset+n}).counts = s.counts := setFile_counts rfl
  rw [finishWrite]
  split_ifs
  all_goals first
    | exact hs
    | rfl

lemma writeFile_counts {offset : ℕ} {buf : List UInt8} {n : ℤ}
    (hw : writeFile g s i offset buf = some (n,t)) : t.counts = s.counts := by
  rw [writeFile] at hw
  split_ifs at hw
  · cases hw
    rfl
  dsimp only at hw
  split at hw
  · cases hw
  · rename_i he
    cases hw
    exact extendFile_counts he
  rename_i he
  split at hw
  · cases hw
    exact extendFile_counts he
  have ht := congrArg Prod.snd (some.inj hw)
  dsimp only at ht
  rw [← ht,finishWrite_counts,writeLoop_counts,noteWalk_counts]
  exact extendFile_counts he

lemma readFile_counts {offset count : ℕ} {keep : ℕ → ℕ → ℕ → Bool} {n : ℤ} {out : List UInt8}
    (hr : readFile g s i offset count keep = some (n,out,t)) : t.counts = s.counts := by
  rw [readFile] at hr
  split_ifs at hr
  · cases hr
    rfl
  · cases hr
    rfl
  dsimp only at hr
  split_ifs at hr
  · cases hr
    rfl
  split at hr
  · cases hr
    rfl
  split_ifs at hr
  · split at hr
    · cases hr
    · rename_i hloop
      obtain ⟨cache,rfl⟩ := readLoop_cache hloop
      cases hr
      exact noteWalk_counts ..
  · cases hr
    exact noteWalk_counts ..

lemma reclaim_counts (hi : (s.files i).refCount = 0) : (reclaim g s i).2.counts = s.counts := by
  rw [reclaim]
  split_ifs
  · rfl
  split
  · rfl
  · rename_i d _
    exact setFile_counts (s := invalidateInode {s with disk := d} (s.files i).firstCluster) hi.symm

/-- A file with references keeps its clusters. -/
def Keeps (g : Geometry) (s t : State) : Prop :=
  ∀ chain, Owned g s chain → ∃ chain', Owned g t chain' ∧
    ∀ i, (s.files i).refCount ≠ 0 → ∀ c ∈ chain (some i), c ∈ chain' (some i)

lemma Keeps.of_owned (h : ∀ chain, Owned g s chain → Owned g t chain) : Keeps g s t :=
  fun chain ho => ⟨chain,h chain ho,fun _ _ _ hc => hc⟩

variable {w v : World τ} {a : τ} {d : Deletion}

/-- A deletion in its flush has a file without references. -/
def Unheld (w : World τ) : Prop :=
  ∀ a i, (w.pc a).flushes i = true → i < w.fs.fileCount ∧ (w.fs.files i).refCount = 0

def Advances (g : Geometry) (w v : World τ) : Prop := Keeps g w.fs v.fs ∧ Unheld v

lemma Advances.goto [DecidableEq τ] (h : Advances g w v)
    (hd : ∀ i, d.flushes i = true → i < v.fs.fileCount ∧ (v.fs.files i).refCount = 0) :
    Advances g w ⟨v.fs,update v.pc a d⟩ := by
  refine ⟨h.1,fun b i hb => ?_⟩
  dsimp only at hb ⊢
  by_cases hba : b = a
  · subst hba
    rw [update_self] at hb
    exact hd i hb
  · rw [update_of_ne hba] at hb
    exact h.2 b i hb

lemma Advances.redir {l : List ℕ} (h : Advances g ⟨{w.fs with dir := l},w.pc⟩ v) : Advances g w v :=
  ⟨fun chain ho => h.1 chain (ho.frame (fun _ _ _ => rfl) (fun _ => Iff.rfl) (fun _ => rfl) ho.slot ho.cursor),h.2⟩

variable (h : Unheld w)
include h

lemma Unheld.refl : Advances g w w := ⟨.of_owned fun _ ho => ho,h⟩

lemma Unheld.counts (hk : Keeps g w.fs t) (hc : t.counts = w.fs.counts) :
    Advances g w ⟨t,w.pc⟩ := by
  refine ⟨hk,fun b i hb => ?_⟩
  have hcount := congrFun (congrArg Prod.snd hc) i
  have hfiles := congrArg Prod.fst hc
  dsimp only [State.counts] at hcount hfiles
  dsimp only
  rw [hcount,hfiles]
  exact h b i hb

lemma Unheld.mark (pending : Bool) {j n : ℕ}
    (hn : n ≤ (w.fs.files j).refCount ∨ ∀ b, (w.pc b).flushes j = false) : Advances g w
      ⟨w.fs.setFile j {w.fs.files j with unlinkPending := pending, refCount := n},w.pc⟩ := by
  refine ⟨.of_owned fun _ ho => ho.mark j pending n,fun b i hb => ⟨(h b i hb).1,?_⟩⟩
  have hi := (h b i hb).2
  dsimp only
  rcases setFile_cases w.fs j {w.fs.files j with unlinkPending := pending, refCount := n} i with
    ⟨rfl,hj⟩ | ⟨-,hj⟩
  · rw [hj]
    rcases hn with hle | hno
    · exact Nat.le_zero.mp (hle.trans_eq hi)
    · exact absurd (hb.symm.trans (hno b)) (by decide)
  · rwa [hj]

variable [DecidableEq τ] {c : Section τ}

lemma Unheld.start (i : ℕ) (allowPending : Bool) :
    Advances g w ⟨(startDelete w.fs i allowPending).2,
      update w.pc a ((startDelete w.fs i allowPending).1.elim .none (.flushing i))⟩ := by
  rw [startDelete]
  dsimp only
  split
  · exact h.refl.goto nofun
  rename_i hbad
  split
  · exact h.refl.goto nofun
  obtain ⟨l,hl⟩ : ∃ l, (if allowPending = true then w.fs
      else {w.fs with dir := w.fs.dir.erase (w.fs.files i).firstCluster}) = {w.fs with dir := l} := by
    split_ifs
    · exact ⟨_,rfl⟩
    · exact ⟨_,rfl⟩
  rw [hl]
  have h' : Unheld (⟨{w.fs with dir := l},w.pc⟩ : World τ) := h
  split
  · exact (h'.mark true (.inl (Nat.le_refl _))).redir.goto nofun
  · rename_i hzero
    refine h'.refl.redir.goto fun j hj => ?_
    obtain rfl := of_decide_eq_true hj
    dsimp only
    omega

lemma Unheld.finish {i first : ℕ} (hpc : w.pc a = .flushing i first) (flushed : Bool) :
    Advances g w ⟨finishDelete g w.fs i first flushed,update w.pc a .none⟩ := by
  have hi := h a i (by rw [hpc]; exact decide_eq_true rfl)
  refine Advances.goto (v := ⟨finishDelete g w.fs i first flushed,w.pc⟩) ?_ nofun
  rw [finishDelete]
  dsimp only
  split_ifs with hok hsame hsame
  · exact h.mark true (.inl (Nat.le_refl _))
  · exact h.refl
  · exact h.refl
  have hlive : Live w.fs i := ⟨hi.1,by simp_all⟩
  refine h.counts (fun chain ho => ?_) (reclaim_counts hi.2)
  rcases reclaim_cases ho hlive with hkept | ⟨hkept,-⟩
  · exact ⟨chain,hkept,fun _ _ _ hc => hc⟩
  · refine ⟨_,hkept,fun j hj c hc => ?_⟩
    rwa [update_of_ne]
    rintro ⟨⟩
    exact hj hi.2

lemma Unheld.next (hc : w.calm c) : Advances g w (w.next g c) := by
  cases c with
  | openRetained name =>
    rw [World.next,openFileRetained]
    split
    · exact h.refl
    · rename_i i hfind
      exact h.mark _ (.inr (hc.2 i hfind))
  | retain i =>
    rw [World.next,retainFile]
    split_ifs
    · exact h.mark _ (.inr hc.2)
    · exact h.refl
  | read i offset count keep =>
    rw [World.next]
    rcases hr : readFile g w.fs i offset count keep with _ | ⟨n,out,t⟩
    · exact h.refl
    · exact h.counts (.of_owned fun _ ho => readFile_owned ho hr) (readFile_counts hr)
  | write i offset buf =>
    rw [World.next]
    rcases hw : writeFile g w.fs i offset buf with _ | ⟨n,t⟩
    · exact h.refl
    · refine h.counts (fun chain ho => ?_) (writeFile_counts hw)
      obtain ⟨chain',ht,hkeep,-⟩ := writeFile_grown ho hw
      exact ⟨chain',ht,fun _ _ => hkeep _⟩
  | close a i =>
    have hclose : Advances g w ⟨(closeSection w.fs i).2,w.pc⟩ := by
      rw [closeSection]
      split_ifs
      · exact h.refl
      · exact h.mark _ (.inl (Nat.sub_le ..))
    rw [World.next]
    split_ifs
    · exact hclose.goto fun _ hj => by cases hj
    · exact hclose
  | delete a i => exact h.refl.goto fun _ hj => by cases hj
  | start a =>
    rw [World.next]
    split
    · exact h.start ..
    · exact h.refl
  | finish a flushed =>
    rw [World.next]
    split
    · rename_i hpc
      exact h.finish hpc flushed
    · exact h.refl

omit h

/-- From a consistent volume without a deletion under way, with no reference
taken on a file during the flush of its deletion: no section marks a cluster of a
file free whose reference count is above zero. -/
theorem open_files_keep_clusters {w₀ : World τ} (hs : Consistent g w₀.fs) (hpc : ∀ a, w₀.pc a = .none)
    (hr : Reaches (Guarded World.calm (World.next g)) w₀ w) :
    ∃ chain, Owned g w.fs chain ∧ ∀ c v, Guarded World.calm (World.next g) w c v →
      ∀ i, 0 < (w.fs.files i).refCount → ∀ x ∈ chain (some i), entry g v.fs.disk x ≠ 0 := by
  have hkeep : ∀ (w : World τ) c v, (Consistent g w.fs ∧ Unheld w) →
      Guarded World.calm (World.next g) w c v → Consistent g v.fs ∧ Unheld v := by
    rintro w c v ⟨⟨chain,ho⟩,h⟩ ⟨hc,rfl⟩
    obtain ⟨hkeeps,hv⟩ := h.next (g := g) hc
    obtain ⟨chain',ho',-⟩ := hkeeps chain ho
    exact ⟨⟨chain',ho'⟩,hv⟩
  have hstart : Unheld w₀ := fun a i ha => by
    rw [hpc] at ha
    cases ha
  obtain ⟨⟨chain,ho⟩,h⟩ := invariant hkeep hr ⟨hs,hstart⟩
  refine ⟨chain,ho,?_⟩
  rintro c v ⟨hc,rfl⟩ i hi x hx
  obtain ⟨chain',ho',hk⟩ := (h.next (g := g) hc).1 chain ho
  exact ho'.allocated _ x (hk i (Nat.pos_iff_ne_zero.mp hi) x hx)

def sharedWorld : World Unit := ⟨sharedVolume,fun _ => .none⟩

/-- The file `b` is deleted while it is open, and the close is in its flush. -/
def deletedOpen : World Unit := run (World.next largeGeometry) sharedWorld
  [.openRetained [98],.delete () 1,.start (),.close () 1,.start (),.write 1 0 [7]]

theorem open_files_keep_clusters_deletedOpen :
    ∃ chain, Owned largeGeometry deletedOpen.fs chain ∧
      ∀ c v, Guarded World.calm (World.next largeGeometry) deletedOpen c v →
        ∀ i, 0 < (deletedOpen.fs.files i).refCount → ∀ x ∈ chain (some i), entry largeGeometry v.fs.disk x ≠ 0 :=
  open_files_keep_clusters sharedVolume_consistent (fun _ => rfl)
    (run_reaches (.start _ _) (by decide))

/-- The file is opened during the flush: its cluster is freed under the descriptor. -/
theorem opened_in_flush_loses_clusters : Consistent largeGeometry sharedVolume ∧
    let opened := run (World.next largeGeometry) sharedWorld [.delete () 1,.start (),.openRetained [98]]
    Admissible World.ready (World.next largeGeometry) sharedWorld
      [.delete () 1,.start (),.openRetained [98],.finish () true] ∧
    (opened.fs.files 1).refCount = 1 ∧ head largeGeometry opened.fs (some 1) = some 200 ∧
      entry largeGeometry opened.fs.disk 200 ≠ 0 ∧
      entry largeGeometry (World.next largeGeometry opened (.finish () true)).fs.disk 200 = 0 :=
  ⟨sharedVolume_consistent,by with_unfolding_all decide⟩

end MoQiOS.Fat32
