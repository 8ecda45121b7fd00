import MoQiOS.TmpfsTree

/-!
# Operations on the tree

Every operation keeps the tree.
-/

namespace MoQiOS.Tmpfs
open Chains Function List

@[simp] lemma setEntry_self (s : State) (i : ℕ) (e : Entry) : (s.setEntry i e).entries i = e :=
  update_self _ _ _

variable {i : ℕ}

lemma setEntry_of_ne (s : State) {j : ℕ} (e : Entry) (hj : j ≠ i) :
    (s.setEntry i e).entries j = s.entries j := update_of_ne hj _ _

lemma setEntry_bitmap {s : State} {e : Entry} (hbm : ∀ j, s.activeBm j = (s.entries j).active)
    (he : e.active = (s.entries i).active) (j : ℕ) :
    (s.setEntry i e).activeBm j = ((s.setEntry i e).entries j).active := by
  refine (hbm j).trans ?_
  by_cases hj : j = i
  · rw [hj,setEntry_self,he]
  · rw [setEntry_of_ne s e hj]

lemma Agrees.setCount (s : State) (i count j : ℕ) :
    Agrees s (s.setEntry i {s.entries i with openCount := count}) j := by
  by_cases hj : j = i
  · subst hj
    constructor <;> rw [setEntry_self]
  · exact .of_eq (setEntry_of_ne s _ hj)

section
variable {s : State} (h : Tree s)
include h

lemma Tree.setCount (i count : ℕ) : Tree (s.setEntry i {s.entries i with openCount := count}) :=
  h.agree (setEntry_bitmap h.bitmap rfl) (Agrees.setCount s i count)

lemma Tree.retained (i : ℕ) : Tree (retained s i) := h.setCount i _

variable {d : ℕ}

lemma Tree.dropEntry (hd : d ≠ 0)
    (hchild : ∀ i, Named s i → (s.entries i).parentIdx ≠ d ∨ i = d) : Tree (dropEntry s d) := by
  have hself : ((Tmpfs.dropEntry s d).entries d).active = false := by
    rw [Tmpfs.dropEntry,setEntry_self]
  have hother : ∀ i, i ≠ d → (Tmpfs.dropEntry s d).entries i = s.entries i :=
    fun i hi => setEntry_of_ne _ _ hi
  refine h.forget (fun i => ?_) hd (fun i hi => .of_eq (hother i hi)) (fun hn => ?_)
    (fun ha => ?_) hchild
  · show update s.activeBm d false i = _
    by_cases hi : i = d
    · rw [hi,update_self,hself]
    · rw [update_of_ne hi,hother i hi,h.bitmap]
  · rw [Named,hself] at hn
    cases hn.1
  · rw [hself] at ha
    cases ha

lemma Tree.markDeleted (hd : d ≠ 0) (hactive : (s.entries d).active = true)
    (hchild : ∀ i, Named s i → (s.entries i).parentIdx ≠ d ∨ i = d) :
    Tree (s.setEntry d {s.entries d with deleted := true}) := by
  refine h.forget (setEntry_bitmap h.bitmap rfl) hd (fun i hi => .of_eq (setEntry_of_ne s _ hi))
    (fun hn => ?_) (fun _ => h.bound d hactive) hchild
  rw [Named,setEntry_self] at hn
  cases hn.2

lemma Tree.tombstone (hd : d ≠ 0) (hactive : (s.entries d).active = true)
    (hchild : ∀ i, Named s i → (s.entries i).parentIdx ≠ d ∨ i = d) : Tree (tombstone s d) := by
  rw [Tmpfs.tombstone]
  split_ifs
  · exact h.dropEntry hd hchild
  · exact h.markDeleted hd hactive hchild

omit h in
lemma tombstone_of_ne (hi : i ≠ d) : (tombstone s d).entries i = s.entries i := by
  rw [Tmpfs.tombstone]
  split_ifs
  · exact setEntry_of_ne _ _ hi
  · exact setEntry_of_ne s _ hi

omit h in
lemma tombstone_unnamed (d : ℕ) : ¬Named (tombstone s d) d := by
  rw [Tmpfs.tombstone,Named]
  split_ifs
  · rw [Tmpfs.dropEntry,setEntry_self]
    rintro ⟨⟨⟩,-⟩
  · rw [setEntry_self]
    rintro ⟨-,⟨⟩⟩

lemma Tree.childless_unnamed (hlt : d < maxFiles) (hd : ¬Named s d) (i : ℕ)
    (hi : Named s i) : (s.entries i).parentIdx ≠ d := by
  by_cases h0 : i = 0
  · rintro rfl
    rw [h0,h.root.2.2] at hlt
    exact absurd hlt (by with_unfolding_all decide)
  · exact fun hp => hd (hp ▸ (h.parent i hi h0).1)

lemma Tree.childless_file (hn : Named s d) (hd : (s.entries d).isDir = false) (i : ℕ)
    (hi : Named s i) : (s.entries i).parentIdx ≠ d := by
  intro hp
  have h0 := h.parent_ne_zero hn hp
  have hdir := (h.parent i hi h0).2
  rw [hp,hd] at hdir
  cases hdir

lemma Tree.close (i : ℕ) : Tree (tmpfsClose s i) := by
  simp only [tmpfsClose]
  split_ifs with hi hoff hlast
  · exact h
  · exact h
  · have hc := h.setCount i ((s.entries i).openCount-1)
    rw [setEntry_self] at hlast
    have hun : ¬Named (s.setEntry i {s.entries i with openCount := (s.entries i).openCount-1}) i := by
      rw [Named,setEntry_self]
      rintro ⟨-,hdel⟩
      rw [hlast.2] at hdel
      cases hdel
    refine hc.dropEntry ?_ fun j hj => .inl (hc.childless_unnamed (not_le.mp hi) hun j hj)
    rintro rfl
    exact hun hc.root.1
  · exact h.setCount i _

lemma Tree.remove (path : Name) (who : Option Caller) (want : RemoveKind) :
    Tree (tmpfsRemove s path who want).1 := by
  rw [tmpfsRemove]
  rcases hr : resolvePath s path with _ | ⟨p,name⟩
  · exact h
  dsimp only
  split_ifs with hroot
  · exact h
  rcases hf : findEntry s name p with _ | d
  · exact h
  obtain ⟨hn,hp,-⟩ := h.findEntry_some hf
  dsimp only
  split_ifs with h1 h2 h3 hany
  · exact h
  · exact h
  · exact h
  · exact h
  refine h.tombstone (h.parent_ne_zero (h.resolvePath_spec hr).1 hp) hn.1 fun i hi => .inl ?_
  rcases hdir : (s.entries d).isDir with _ | _
  · exact h.childless_file hn hdir i hi
  intro hpi
  rw [hdir,Bool.true_and] at hany
  apply hany
  rw [any_eq_true]
  exact ⟨i,(h.mem_slots i).mpr hi.1,by simp [hi.2,hpi]⟩

lemma Tree.allocEntry_spec {t : State} (ha : allocEntry s = some (t,i)) :
    i ≠ 0 ∧ i < maxFiles ∧ (s.entries i).active = false ∧
    t = {s with activeBm := update s.activeBm i true} := by
  rw [allocEntry,Option.map_eq_some_iff] at ha
  obtain ⟨j,hj,heq⟩ := ha
  cases heq
  have hmem := mem_of_find?_eq_some hj
  have htest := find?_some hj
  simp only [Bool.and_eq_true,decide_eq_true_eq,Bool.not_eq_true'] at htest
  rw [h.bitmap] at htest
  exact ⟨Nat.one_le_iff_ne_zero.mp htest.1,mem_range.mp hmem,htest.2,rfl⟩

variable {name : Name}

lemma Tree.createEntry_spec {p : ℕ} {isDir : Bool} {mode : Option UInt32}
    {umask euid egid : UInt32} {t : State}
    (hc : createEntryLocked s name p isDir mode umask euid egid = some (t,i)) :
    i ≠ 0 ∧ i < maxFiles ∧ ¬Named s i ∧ (∀ j, j ≠ i → t.entries j = s.entries j) ∧
    (∀ j, t.activeBm j = (t.entries j).active) ∧ Named t i ∧ (t.entries i).name = name ∧
    (t.entries i).parentIdx = p := by
  rw [createEntryLocked] at hc
  rcases ha : allocEntry s with _ | ⟨u,k⟩
  · rw [ha] at hc
    cases hc
  rw [ha] at hc
  obtain ⟨hk,hlt,hfree,rfl⟩ := h.allocEntry_spec ha
  cases hc
  have hun : ¬Named s i := fun hn => by
    have hactive := hn.1
    rw [hfree] at hactive
    cases hactive
  refine ⟨hk,hlt,hun,fun j hj => update_of_ne hj _ _,fun j => ?_,?_,?_,?_⟩
  · show update s.activeBm i true j = (update s.entries i _ j).active
    by_cases hj : j = i
    · rw [hj,update_self,update_self]
    · rw [update_of_ne hj,update_of_ne hj,h.bitmap]
  all_goals simp [Named,State.setEntry]

lemma Tree.create {p : ℕ} {isDir : Bool} {mode : Option UInt32}
    {umask euid egid : UInt32} {t : State}
    (hc : createEntryLocked s name p isDir mode umask euid egid = some (t,i)) (hp : Named s p)
    (hd : (s.entries p).isDir = true) (hlen : name.length ≤ maxNameLen)
    (hnew : findEntry s name p = none) : Tree t := by
  obtain ⟨h0,hlt,hun,hother,hbm,-,hname,hparent⟩ := h.createEntry_spec hc
  obtain ⟨l,hl⟩ := h.climbs p hp
  refine h.relocate hbm (fun j => j = i) (Ne.symm h0) (fun j hj => .of_eq (hother j hj))
    ?_ ?_ ?_ ?_
  · rintro j rfl
    rw [hname]
    exact ⟨fun _ => hlt,fun _ => hlen⟩
  · rintro j rfl -
    rw [hparent]
    refine ⟨l,hp,hd,hl,fun k hk hki => hun ?_⟩
    rw [← hki]
    exact h.climb_named hp hl k hk
  · rintro j rfl k hk - hkp
    exact absurd hkp (h.childless_unnamed hlt hun k hk)
  · rintro j k rfl - hk hpk hnk
    by_contra hne
    have hjk := hother k (Ne.symm hne)
    rw [hparent,hjk] at hpk
    rw [hname,hjk] at hnk
    rw [(Agrees.of_eq hjk).named] at hk
    exact h.findEntry_none hnew hk hpk.symm hnk.symm

lemma Tree.createAnonymous (euid egid : UInt32) :
    Tree ((tmpfsCreateAnonymous s euid egid).elim s Prod.fst) := by
  rw [tmpfsCreateAnonymous]
  rcases hc : createEntryLocked s [] 0 false (some 0o777) 0 euid egid with _ | ⟨t,i⟩
  · exact h
  obtain ⟨h0,hlt,hun,hother,hbm,hnamed,-⟩ := h.createEntry_spec hc
  show Tree (t.setEntry i {t.entries i with deleted := true})
  refine h.forget (setEntry_bitmap hbm rfl) h0 (fun j hj => ?_) (fun hn => ?_) (fun _ => hlt)
    fun j hj => .inl (h.childless_unnamed hlt hun j hj)
  · exact .of_eq ((setEntry_of_ne t _ hj).trans (hother j hj))
  · rw [Named,setEntry_self] at hn
    cases hn.2

lemma Tree.openFile (path : Name) (create isDir : Bool) (who : Caller) (flags : UInt32)
    (mode : Option UInt32) (umask : UInt32) :
    Tree (tmpfsOpenAuthorized s path create isDir who flags mode umask).1 := by
  rw [tmpfsOpenAuthorized]
  rcases hr : resolvePath s path with _ | ⟨p,name⟩
  · exact h
  obtain ⟨hp,hd,hlen⟩ := h.resolvePath_spec hr
  dsimp only
  by_cases hroot : name = [slash]
  · rw [if_pos hroot]
    split_ifs
    · exact h
    · exact h
    · exact h.retained 0
  rw [if_neg hroot]
  rcases hf : findEntry s name p with _ | i
  · dsimp only
    split_ifs
    · exact h
    · rcases hc : createEntryLocked s name p isDir mode umask who.euid who.egid with _ | ⟨t,i⟩
      · exact h
      · exact h.create hc hp hd hlen hf
    · exact h
  · dsimp only
    split_ifs
    · exact h
    · exact h
    · exact h
    · exact h.retained i

lemma Tree.mkdir (path : Name) (mode umask : UInt32) (who : Caller) :
    Tree (tmpfsMkdirAuthorized s path mode umask who).1 := by
  have hprobe := h.openFile path false false who 0 (some mode) umask
  simp only [tmpfsMkdirAuthorized]
  split_ifs
  · exact hprobe.close _
  · exact hprobe.openFile path true true who 0 (some mode) umask
  · exact (hprobe.openFile path true true who 0 (some mode) umask).close _

variable {l : List ℕ}

lemma Tree.place {src p : ℕ} (hsrc : Named s src) (h0 : src ≠ 0)
    (hp : Named s p) (hd : (s.entries p).isDir = true) (hl : Chain (up s) (some p) l)
    (hnot : src ∉ l) (hlen : name.length ≤ maxNameLen)
    (hfree : ∀ j, Named s j → j ≠ src → (s.entries j).parentIdx = p → (s.entries j).name ≠ name) :
    Tree (place s src name p) := by
  have hself : (Tmpfs.place s src name p).entries src =
      {s.entries src with name := name, parentIdx := p} :=
    setEntry_self _ _ _
  have hother : ∀ j, j ≠ src → (Tmpfs.place s src name p).entries j = s.entries j :=
    fun j hj => setEntry_of_ne _ _ hj
  refine h.relocate (setEntry_bitmap h.bitmap rfl) (fun j => j = src) (Ne.symm h0)
    (fun j hj => .of_eq (hother j hj)) ?_ ?_ ?_ ?_
  · rintro j rfl
    rw [hself]
    exact ⟨fun _ => h.named_lt hsrc,fun _ => hlen⟩
  · rintro j rfl -
    rw [hself]
    exact ⟨l,hp,hd,hl,fun k hk hkj => hnot (hkj ▸ hk)⟩
  · rintro j rfl k hk - rfl
    rw [Named,hself]
    exact ⟨hsrc,(h.parent k hk (h.parent_ne_zero hsrc rfl)).2⟩
  · rintro j k rfl - hk hpk hnk
    by_contra hne
    have hjk := hother k (Ne.symm hne)
    rw [hself,hjk] at hpk hnk
    rw [(Agrees.of_eq hjk).named] at hk
    exact hfree k hk (Ne.symm hne) hpk.symm hnk.symm

lemma Tree.replace {src p : ℕ} {dst : Option ℕ} (hsrc : Named s src)
    (h0 : src ≠ 0) (hp : Named s p) (hd : (s.entries p).isDir = true)
    (hl : Chain (up s) (some p) l) (hnot : src ∉ l) (hlen : name.length ≤ maxNameLen)
    (hdst : findEntry s name p = dst) (hne : dst ≠ some src)
    (hchild : ∀ d, dst = some d → ∀ i, Named s i → (s.entries i).parentIdx ≠ d ∨ i = d) :
    Tree (renameReplace s src dst name p) := by
  rcases dst with _ | d
  · exact h.place hsrc h0 hp hd hl hnot hlen fun j hj _ hpj => h.findEntry_none hdst hj hpj
  obtain ⟨hdn,hdp,hdname⟩ := h.findEntry_some hdst
  have hds : src ≠ d := fun heq => hne (by rw [heq])
  have hd0 := h.parent_ne_zero hp hdp
  have ht := h.tombstone hd0 hdn.1 (hchild d rfl)
  have hdl := h.not_above_parent hp hdp hl
  have hpd : p ≠ d := fun heq => hdl (by
    cases l with
    | nil => cases hl
    | cons a rest =>
      rw [← heq,Option.some.inj hl.1]
      exact mem_cons_self)
  have hsame : ∀ j, j ≠ d → Agrees s (Tmpfs.tombstone s d) j :=
    fun j hj => .of_eq (tombstone_of_ne hj)
  refine ht.place ((hsame src hds).named.mpr hsrc) h0 ((hsame p hpd).named.mpr hp) ?_
    (hl.frame fun j hj => (hsame j fun heq => hdl (heq ▸ hj)).up) hnot hlen ?_
  · rw [(hsame p hpd).isDir,hd]
  · intro j hj _ hpj hnj
    have hjd : j ≠ d := fun heq => tombstone_unnamed d (heq ▸ hj)
    rw [(hsame j hjd).parentIdx] at hpj
    rw [(hsame j hjd).name] at hnj
    exact hjd (h.apart j d ((hsame j hjd).named.mp hj) hdn (hpj.trans hdp.symm)
      (hnj.trans hdname.symm))

lemma Tree.exchange {src d p q : ℕ} {lp lq : List ℕ} (hsrc : Named s src) (hdn : Named s d)
    (hne : src ≠ d) (hp : Named s p) (hq : Named s q) (hpd : (s.entries p).isDir = true)
    (hqd : (s.entries q).isDir = true) (hsp : (s.entries src).parentIdx = p)
    (hdq : (s.entries d).parentIdx = q) (hlp : Chain (up s) (some p) lp)
    (hlq : Chain (up s) (some q) lq) (hsq : src ∉ lq) (hdp : d ∉ lp) :
    Tree (renameExchange s src d p q) := by
  have hes : (renameExchange s src d p q).entries src =
      {s.entries src with name := (s.entries d).name, parentIdx := q} := by
    rw [renameExchange,Tmpfs.place,setEntry_self,Tmpfs.place,setEntry_of_ne _ _ hne]
  have hed : (renameExchange s src d p q).entries d =
      {s.entries d with name := (s.entries src).name, parentIdx := p} := by
    rw [renameExchange,Tmpfs.place,setEntry_of_ne _ _ (Ne.symm hne),Tmpfs.place,setEntry_self]
  have hother : ∀ j, ¬(j = src ∨ j = d) → (renameExchange s src d p q).entries j = s.entries j := by
    intro j hj
    rw [not_or] at hj
    rw [renameExchange,Tmpfs.place,setEntry_of_ne _ _ hj.1,Tmpfs.place,setEntry_of_ne _ _ hj.2]
  have hs0 := h.parent_ne_zero hp hsp
  have hd0 := h.parent_ne_zero hq hdq
  refine h.relocate (setEntry_bitmap (setEntry_bitmap h.bitmap rfl) rfl) (fun j => j = src ∨ j = d)
    (not_or.mpr ⟨Ne.symm hs0,Ne.symm hd0⟩) (fun j hj => .of_eq (hother j hj)) ?_ ?_ ?_ ?_
  · rintro j (rfl | rfl)
    · rw [hes]
      exact ⟨fun _ => h.named_lt hsrc,fun _ => h.short d hdn⟩
    · rw [hed]
      exact ⟨fun _ => h.named_lt hdn,fun _ => h.short src hsrc⟩
  · rintro j (rfl | rfl) -
    · rw [hes]
      refine ⟨lq,hq,hqd,hlq,?_⟩
      rintro k hk (rfl | rfl)
      · exact hsq hk
      · exact h.not_above_parent hq hdq hlq hk
    · rw [hed]
      refine ⟨lp,hp,hpd,hlp,?_⟩
      rintro k hk (rfl | rfl)
      · exact h.not_above_parent hp hsp hlp hk
      · exact hdp hk
  · rintro j (rfl | rfl) k hk - rfl
    · rw [Named,hes]
      exact ⟨hsrc,(h.parent k hk (h.parent_ne_zero hsrc rfl)).2⟩
    · rw [Named,hed]
      exact ⟨hdn,(h.parent k hk (h.parent_ne_zero hdn rfl)).2⟩
  · intro j k hj _ hk hpk hnk
    by_cases hkm : k = src ∨ k = d
    · rcases hj with rfl | rfl <;> rcases hkm with rfl | rfl
      · rfl
      · rw [hes,hed] at hpk hnk
        exact h.apart j k hsrc hdn (hsp.trans (hpk.symm.trans hdq.symm)) hnk.symm
      · rw [hes,hed] at hpk hnk
        exact h.apart j k hdn hsrc (hdq.trans (hpk.symm.trans hsp.symm)) hnk.symm
      · rfl
    have hks := hother k hkm
    rw [(Agrees.of_eq hks).named] at hk
    rw [not_or] at hkm
    rcases hj with rfl | rfl
    · rw [hes,hks] at hpk hnk
      exact absurd (h.apart k d hk hdn (hpk.symm.trans hdq.symm) hnk.symm) hkm.2
    · rw [hed,hks] at hpk hnk
      exact absurd (h.apart k src hk hsrc (hpk.symm.trans hsp.symm) hnk.symm) hkm.1

lemma Tree.not_above {p : ℕ} (hp : Named s p) (hd : (s.entries p).isDir = true)
    (hl : Chain (up s) (some p) l)
    (htest : ((s.entries i).isDir && isAncestorOrSelf s i p) ≠ true) : i ∉ l := by
  intro hmem
  rw [h.climb_dirs hp hd hl i hmem,Bool.true_and] at htest
  exact htest ((h.isAncestorOrSelf_spec hp hl).mpr hmem)

lemma Tree.childless_target {m : RenameMode} {srcIsDir : Bool} (hd : Named s d)
    (hm : m ≠ .exchange) (hrule : checkTarget m srcIsDir (some ⟨(s.entries d).isDir,
      !(s.entries d).isDir || !hasChildren s d⟩) = 0) (i : ℕ) (hi : Named s i) :
    (s.entries i).parentIdx ≠ d ∨ i = d := by
  rcases hdir : (s.entries d).isDir with _ | _
  · exact .inl (h.childless_file hd hdir i hi)
  by_contra hcon
  rw [not_or,not_not] at hcon
  have hhas : hasChildren s d = true := by
    rw [hasChildren,any_eq_true]
    exact ⟨i,(h.mem_slots i).mpr hi.1,by simp [hi.2,hcon.1,hcon.2]⟩
  rw [hdir,hhas] at hrule
  cases m <;> cases srcIsDir <;> simp [checkTarget] at hrule hm

lemma Tree.rename (oldPath newPath : Name) (m : RenameMode) (who : Option Caller) :
    Tree (tmpfsRename s oldPath newPath m who).1 := by
  rw [tmpfsRename]
  rcases ho : resolvePath s oldPath with _ | ⟨p,oldName⟩
  · exact h
  rcases hn : resolvePath s newPath with _ | ⟨q,newName⟩
  · exact h
  obtain ⟨hp,hpd,-⟩ := h.resolvePath_spec ho
  obtain ⟨hq,hqd,hlen⟩ := h.resolvePath_spec hn
  obtain ⟨lp,hlp⟩ := h.climbs p hp
  obtain ⟨lq,hlq⟩ := h.climbs q hq
  dsimp only
  by_cases hroot : oldName = [slash] ∨ newName = [slash]
  · rw [if_pos hroot]
    exact h
  rw [if_neg hroot]
  rcases hf : findEntry s oldName p with _ | src
  · exact h
  obtain ⟨hsrc,hsp,-⟩ := h.findEntry_some hf
  have h0 := h.parent_ne_zero hp hsp
  dsimp only
  split_ifs with hsame hrule hbelow hbelow' h1 h2
  · exact h
  · exact h
  · exact h
  · exact h
  · exact h
  · exact h
  have hsq := h.not_above hq hqd hlq hbelow
  rw [not_not] at hrule
  rcases hdst : findEntry s newName q with _ | d
  · have hrep := h.replace hsrc h0 hq hqd hlq hsq hlen hdst (by simp)
      (fun d hd => by cases hd)
    cases m <;> exact hrep
  rw [hdst] at hrule hsame hbelow'
  obtain ⟨hdn,hdq,-⟩ := h.findEntry_some hdst
  by_cases hm : m = .exchange
  · subst hm
    have hdp := h.not_above (i := d) hp hpd hlp (by simpa using hbelow')
    exact h.exchange hsrc hdn (fun heq => hsame (by rw [heq])) hp hq hpd hqd hsp hdq
      hlp hlq hsq hdp
  have hrep := h.replace hsrc h0 hq hqd hlq hsq hlen hdst hsame
    (fun d' hd' i hi => by
      cases hd'
      exact h.childless_target hdn hm hrule i hi)
  cases m with
  | exchange => exact absurd rfl hm
  | replace => exact hrep
  | noreplace => exact hrep

lemma Tree.step (op : Op) : Tree (step s op) := by
  cases op with
  | openFile path create isDir who flags mode umask =>
    exact h.openFile path create isDir who flags mode umask
  | mkdir path mode umask who => exact h.mkdir path mode umask who
  | close i => exact h.close i
  | createAnonymous euid egid => exact h.createAnonymous euid egid
  | retain i =>
    show Tree (tmpfsRetain s i)
    rw [tmpfsRetain]
    split_ifs
    · exact h
    · exact h.retained i
    · exact h
  | remove path who want => exact h.remove path who want
  | rename oldPath newPath m who => exact h.rename oldPath newPath m who

end

end MoQiOS.Tmpfs
