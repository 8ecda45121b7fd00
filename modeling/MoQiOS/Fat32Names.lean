import MoQiOS.Fat32Steps

/-!
# Chains under creating and deleting

A created file gets a chain of one cluster, and the root directory may grow by
one. A deleted file gives its chain back, at once or when it is closed.
-/

namespace MoQiOS.Fat32

open ByteImages Chains Function List Option

variable {g : Geometry} {s t : State} {chain : Option ℕ → List ℕ}

/-- The chains next to a cluster that is taken and on none of them. -/
structure Reserved (g : Geometry) (s : State) (chain : Option ℕ → List ℕ) (nc : ℕ) : Prop where
  owned : Owned g s chain
  inRange : 2 ≤ nc ∧ nc < maxCluster g
  apart : ∀ o, nc ∉ chain o
  taken : entry g s.disk nc = endMark

variable {nc : ℕ}

lemma Fresh.reserved (hf : Fresh g s nc t) (h : Owned g s chain) : Reserved g t chain nc := by
  have hapart : ∀ o, nc ∉ chain o := fun o hmem => h.allocated o nc hmem hf.free
  refine ⟨?_,hf.inRange,hapart,hf.taken⟩
  refine h.frame (fun o c hc => ?_) (fun i => ?_) (fun i => ?_) (fun i hi => ?_) ?_
  · refine hf.entries c (lt_entries (h.inRange o c hc).2) ?_
    rintro rfl
    exact hapart o hc
  · rw [hf.rest]
    rfl
  · rw [hf.rest]
  · rw [hf.rest]
    exact h.slot i hi
  · rw [hf.rest]
    have hlo := hf.inRange.1
    dsimp only
    omega

lemma Reserved.release (h : Reserved g s chain nc) : Owned g (release g s nc) chain := by
  refine h.owned.withDisk fun o c hc => ?_
  refine setFATEntry_visit 0 s.disk nc c h.inRange.2 (h.owned.inRange o c hc).2 ?_
  rintro rfl
  exact h.apart o hc

lemma safetyLimit_pos : 0 < safetyLimit := by
  rw [safetyLimit]
  decide

/-- A reserved cluster linked behind a cluster of the root directory's chain. What
followed that cluster is cut off. -/
lemma Reserved.link {c last : ℕ} {front rest : List ℕ} (h : Reserved g s chain c)
    (hroot : chain none = front++last::rest) : Owned g {s with disk := setFATEntry g s.disk last c}
      (update chain none (front++[last,c])) := by
  have hin := h.owned.inRange none
  have hkept : ∀ x ∈ front++[last], x ∈ chain none := by
    intro x hx
    rw [hroot,append_cons]
    exact mem_append_left _ hx
  have hlm := hkept last (by simp)
  have hcl : c ≠ last := fun heq => h.apart none (heq ▸ hlm)
  have hsmall : c < 2^28 := by
    have hfit := g.clusters_fit
    have hle := h.inRange.2.trans_le (maxCluster_le g).1
    omega
  have hother : ∀ x < maxCluster g, x ≠ last →
      entry g (setFATEntry g s.disk last c) x = entry g s.disk x :=
    fun x hx hne => setFATEntry_visit c s.disk last x (hin last hlm).2 hx hne
  have hself : entry g (setFATEntry g s.disk last c) last = c :=
    entry_setFATEntry_self g _ (lt_entries (hin last hlm).2) hsmall
  have hc := (hother c h.inRange.2 hcl).trans h.taken
  have hmem : ∀ x ∈ front++[last,c], x ∈ chain none ∨ x = c := by
    intro x hx
    rw [append_cons] at hx
    rcases mem_append.mp hx with hx | hx
    · exact .inl (hkept x hx)
    · exact .inr (mem_singleton.mp hx)
  refine h.owned.update ?_ ?_ ?_ ?_ ?_ h.owned.cursor
  · have hchain := h.owned.chained none
    have hnodup := hchain.nodup
    rw [hroot] at hchain hnodup
    refine chain_linked hchain (fun x hx => hother x ?_ ?_) hself hc
      (isData_of_lt h.inRange.1 h.inRange.2)
    · exact (hin x (hkept x (mem_append_left _ hx))).2
    · rintro rfl
      exact disjoint_of_nodup_append hnodup hx mem_cons_self
  · intro x hx
    by_cases hxl : x = last
    · rw [hxl]
      refine ⟨(hin last hlm).1,(hin last hlm).2,?_⟩
      have hlo := h.inRange.1
      show entry g (setFATEntry g s.disk last c) last ≠ 0
      omega
    rcases hmem x hx with hold | rfl
    · refine ⟨(hin x hold).1,(hin x hold).2,?_⟩
      show entry g (setFATEntry g s.disk last c) x ≠ 0
      rw [hother x (hin x hold).2 hxl]
      exact h.owned.allocated none x hold
    refine ⟨h.inRange.1,h.inRange.2,?_⟩
    show entry g (setFATEntry g s.disk last x) x ≠ 0
    rw [hc]
    decide
  · intro x hx
    rcases hmem x hx with hold | rfl
    · exact .inl hold
    · exact .inr h.apart
  · intro o ho
    refine ⟨?_,fun x hx => hother x (h.owned.inRange o x hx).2 ?_⟩
    · cases o with
      | none => exact absurd rfl ho
      | some i => rfl
    · rintro rfl
      exact ho (h.owned.disjoint o none x hx hlm)
  · intro i hi
    rw [update_of_ne (by simp)]
    exact h.owned.slot i hi

lemma Owned.rootLast_split (h : Owned g s chain) :
    ∃ front last rest, chain none = front++last::rest ∧
      rootLast g s.disk safetyLimit g.rootCluster g.rootCluster = some last := by
  obtain ⟨rest,hrest⟩ := h.root_mem
  have hroot := h.chained none
  rw [head] at hroot
  obtain ⟨last,hlast⟩ := last_kept (l := chain none) (by simp [hrest]) safetyLimit_pos
  obtain ⟨front,hfront⟩ := getLast?_eq_some_iff.mp hlast
  refine ⟨front,last,(chain none).drop safetyLimit,?_,?_⟩
  · conv_lhs => rw [← take_append_drop safetyLimit (chain none),hfront,append_assoc]
    rfl
  · rw [rootLast_chain hroot (h.inRange none),hlast,getD_some]

lemma growRootDir_reserved (h : Reserved g s chain nc) :
    ∃ chain', Reserved g (growRootDir g s).2 chain' nc ∧
      (∀ i, chain' (some i) = chain (some i)) ∧ (growRootDir g s).2.files = s.files ∧
      (growRootDir g s).2.fileCount = s.fileCount := by
  obtain ⟨front,last,rest,hroot,hlast⟩ := h.owned.rootLast_split
  rw [growRootDir,hlast]
  rcases ha : allocZeroed g s with _ | p
  · exact ⟨chain,h,fun _ => rfl,rfl,rfl⟩
  obtain ⟨c,u⟩ := p
  have hf := allocZeroed_fresh h.owned.max_gt h.owned.cursor ha
  have hu := hf.reserved h.owned
  have hlm : last ∈ chain none := by simp [hroot]
  have hcn : nc ≠ c := by
    rintro rfl
    have hfree := hf.free
    rw [h.taken] at hfree
    exact absurd hfree (by decide)
  have hnl : nc ≠ last := fun heq => h.apart none (heq ▸ hlm)
  refine ⟨update chain none (front++[last,c]),⟨hu.link hroot,h.inRange,?_,?_⟩,?_,
    hf.files,hf.fileCount⟩
  · intro o hmem
    by_cases ho : o = none
    · subst ho
      -- nc is none of the clusters that stay, which were the root's, nor the new one
      have hold := h.apart none
      rw [hroot] at hold
      rw [update_self] at hmem
      simp_all
    · rw [update_of_ne ho] at hmem
      exact h.apart o hmem
  · calc entry g (setFATEntry g u.disk last c) nc
      _ = entry g u.disk nc :=
        setFATEntry_visit c u.disk last nc (h.owned.inRange none last hlm).2 h.inRange.2 hnl
      _ = entry g s.disk nc := hf.entries nc (lt_entries h.inRange.2) hcn
      _ = endMark := h.taken
  · exact fun i => update_of_ne (by simp) ..

variable {p : Placing}

lemma placeEntry_reserved (h : Reserved g s chain nc) :
    ∃ chain', Reserved g (placeEntry g p s).2 chain' nc ∧
      (∀ i, chain' (some i) = chain (some i)) ∧ (placeEntry g p s).2.files = s.files ∧
      (placeEntry g p s).2.fileCount = s.fileCount := by
  rw [placeEntry]
  split_ifs
  · exact ⟨chain,h,fun _ => rfl,rfl,rfl⟩
  · exact growRootDir_reserved h

lemma Reserved.enter {idx count : ℕ} (name : List UInt8) (dir : List ℕ)
    (h : Reserved g s chain nc) (hidx : idx < count)
    (hcount : ∀ j ≠ idx, j < count ↔ j < s.fileCount) :
    Owned g {s.setFile idx ⟨name,0,nc,nc,0,0,false,true,0,false⟩ with dir := dir, fileCount := count}
      (update chain (some idx) [nc]) := by
  set fi : FileInfo := ⟨name,0,nc,nc,0,0,false,true,0,false⟩ with hfi
  set t : State := {s.setFile idx fi with dir := dir, fileCount := count} with ht
  have hdata := isData_of_lt h.inRange.1 h.inRange.2
  have hself : t.files idx = fi := update_self ..
  have hnew : Live t idx := ⟨hidx,by rw [hself]⟩
  refine h.owned.setChain (fun j hj => update_of_ne hj ..) hcount (fun _ _ _ _ => rfl) ?_
    (.inl ⟨hnew,?_,?_,?_,?_⟩) h.owned.cursor
  · intro c hc
    obtain rfl := mem_singleton.mp hc
    exact .inr h.apart
  · rw [hself]
    refine ⟨link_of_data hdata,?_⟩
    show next g s.disk nc = none
    rw [next,h.taken,link_of_not endMark_not_data]
  · intro c hc
    obtain rfl := mem_singleton.mp hc
    exact h.inRange
  · intro c hc
    obtain rfl := mem_singleton.mp hc
    show entry g s.disk c ≠ 0
    rw [h.taken]
    decide
  · rw [hself]
    exact ⟨fun _ => rfl,fun hw => absurd hw (show ¬IsData 0 by decide)⟩

lemma createFile_stepped {name : List UInt8} (h : Owned g s chain) :
    Stepped g chain (createFile g s name p).2 := by
  rw [createFile]
  by_cases hname : (!isRootName name || decide (maxFilename ≤ name.length)) = true
  · rw [if_pos hname]
    exact h.stepped
  rw [if_neg hname]
  cases hfound : (List.range s.fileCount).find? (fun i => (s.files i).active &&
      decide ((s.files i).name = name) && !(s.files i).unlinkPending) with
  | some i => exact h.stepped
  | none =>
    dsimp only
    set slot := (List.range s.fileCount).find? fun i => !(s.files i).active with hslot
    by_cases hfull : slot = none ∧ maxFiles ≤ s.fileCount
    · rw [if_pos hfull]
      exact h.stepped
    rw [if_neg hfull]
    rcases ha : allocZeroed g s with _ | q
    · exact h.stepped
    obtain ⟨nc,u⟩ := q
    have hf := allocZeroed_fresh h.max_gt h.cursor ha
    have hu := hf.reserved h
    dsimp only
    rcases p.shortName with _ | _
    · exact hu.release.stepped
    obtain ⟨chain',hv,hsame,hfiles,hcount⟩ := placeEntry_reserved (p := p) hu
    rw [if_neg (by decide)]
    generalize placeEntry g p u = r at hv hfiles hcount
    obtain ⟨placed,v⟩ := r
    have hkeep : ∀ {w : State}, Owned g w chain' → Stepped g chain w := fun hw =>
      ⟨chain',hw,fun i c hc => .inl ⟨i,by rw [hsame]; exact hc⟩⟩
    rcases placed with _ | _
    · exact hkeep hv.release
    dsimp only at hv hfiles hcount ⊢
    have hcount' : v.fileCount = s.fileCount := hcount.trans hf.fileCount
    have hfiles' : v.files = s.files := hfiles.trans hf.files
    have hnot : ¬Live v (slot.getD v.fileCount) := by
      rintro ⟨hlt,hact⟩
      cases hs : slot with
      | none =>
        rw [hs] at hlt
        exact absurd hlt (Nat.lt_irrefl _)
      | some j =>
        have hinact := find?_some (hslot.symm.trans hs)
        rw [hs,getD_some,hfiles'] at hact
        simp [hact] at hinact
    have hidx : slot.getD v.fileCount <
        if slot.getD v.fileCount = v.fileCount then v.fileCount+1 else v.fileCount := by
      cases hs : slot with
      | none => simp
      | some j =>
        have hlt := mem_range.mp (mem_of_find?_eq_some (hslot.symm.trans hs))
        rw [getD_some]
        split_ifs <;> omega
    have hent := hv.enter name (nc::v.dir) hidx (fun j hj => by
      split_ifs <;> omega)
    refine ⟨_,hent,fun i c hc => .inl ⟨i,?_⟩⟩
    have hi : i ≠ slot.getD v.fileCount := by
      rintro rfl
      have hdead := hv.owned.chained (some (slot.getD v.fileCount))
      rw [head,if_neg hnot] at hdead
      rw [← hsame,((show Chain (next g v.disk) none [] from rfl).unique hdead).symm] at hc
      exact absurd hc not_mem_nil
    rw [update_of_ne (fun heq => hi (some.inj heq)),hsame]
    exact hc

variable {i : ℕ} (h : Owned g s chain)
include h

lemma reclaim_cases (hi : Live s i) : Owned g (reclaim g s i).2 chain ∨
    Owned g (reclaim g s i).2 (update chain (some i) []) ∧
      ∀ c ∈ chain (some i), entry g (reclaim g s i).2.disk c = 0 := by
  have hfile := h.file hi
  rw [reclaim]
  rcases hv : validateChain g s.disk (s.files i).firstCluster with _ | _
  · exact .inl h
  obtain ⟨hlen,hok⟩ := sweepChain_true (linkOk g) (fun d _ => d) (fun _ _ _ _ _ _ => rfl)
    hfile.chained hfile.inRange hv
  have hfree := sweepChain_chain _ _ (setFATEntry_visit 0) hfile.chained hfile.inRange hok hlen
  rw [if_neg (by decide),freeChain,hfree]
  dsimp only
  set d := (chain (some i)).foldl (fun d c => setFATEntry g d c 0) s.disk with hd
  set t := (invalidateInode {s with disk := d} (s.files i).firstCluster).setFile i freeSlot with ht
  have hent : ∀ c < maxCluster g, entry g t.disk c =
      if c ∈ chain (some i) then 0 else entry g s.disk c :=
    fun c hc => entry_freed (fun c hc => (hfile.inRange c hc).2) s.disk hc
  have hself : t.files i = freeSlot := update_self ..
  have hdead : ¬Live t i := by
    rintro ⟨-,hact⟩
    rw [hself] at hact
    cases hact
  right
  refine ⟨h.setChain (fun j hj => update_of_ne hj ..) (fun _ _ => Iff.rfl)
    (fun o ho c hc => ?_) nofun (.inr ⟨hdead,rfl⟩) h.cursor,fun c hc => ?_⟩
  · rw [hent c (h.inRange o c hc).2,if_neg]
    exact fun hmem => ho (h.disjoint o (some i) c hc hmem)
  · rw [hent c (h.inRange _ c hc).2,if_pos hc]

lemma reclaim_stepped (hi : Live s i) : Stepped g chain (reclaim g s i).2 := by
  rcases reclaim_cases h hi with hsame | ⟨howned,hfree⟩
  · exact hsame.stepped
  refine ⟨_,howned,fun j c hc => ?_⟩
  by_cases hji : j = i
  · subst hji
    exact .inr (hfree c hc)
  · left
    refine ⟨j,?_⟩
    rwa [update_of_ne (fun heq => hji (some.inj heq))]

lemma Owned.mark (i : ℕ) (pending : Bool) (count : ℕ) :
    Owned g (s.setFile i {s.files i with unlinkPending := pending, refCount := count}) chain :=
  h.setFile rfl rfl fun hi => ⟨(h.slot i hi).last,(h.slot i hi).walk⟩

omit h

variable {staged : List Extent}

include h

lemma deleteFileInternal_stepped {allow : Bool} {ok : Bool} (hdel : deleteFileInternal g s i allow staged = some (ok,t)) :
    Stepped g chain t := by
  rw [deleteFileInternal] at hdel
  by_cases hbad : s.fileCount ≤ i ∨ (s.files i).active = false ∨
      (allow = false ∧ (s.files i).unlinkPending) ∨ (s.files i).isDir
  · rw [if_pos hbad] at hdel
    cases hdel
    exact h.stepped
  rw [if_neg hbad] at hdel
  by_cases hmiss : allow = false ∧ (s.files i).firstCluster ∉ s.dir
  · rw [if_pos hmiss] at hdel
    cases hdel
    exact h.stepped
  rw [if_neg hmiss] at hdel
  have hi : Live s i := by
    simp only [not_or] at hbad
    exact ⟨by omega,by simpa using hbad.2.1⟩
  dsimp only at hdel
  set u := if allow then s else {s with dir := s.dir.erase (s.files i).firstCluster} with hu
  have hfiles : u.files = s.files := by
    rw [hu]
    split_ifs <;> rfl
  have howned : Owned g u chain := by
    rw [hu]
    split_ifs
    · exact h
    · exact h.frame (fun _ _ _ => rfl) (fun _ => Iff.rfl) (fun _ => rfl) h.slot h.cursor
  have hui : Live u i := by
    rw [hu]
    split_ifs
    · exact hi
    · exact hi
  by_cases href : (s.files i).refCount ≠ 0
  · rw [if_pos href] at hdel
    cases hdel
    rw [← hfiles]
    exact (howned.mark i true (u.files i).refCount).stepped
  rw [if_neg href] at hdel
  rcases hf : flushStaged g staged u with _ | p
  · rw [hf] at hdel
    cases hdel
  obtain ⟨flushed,v⟩ := p
  obtain ⟨chain',hv,hkeep,hlive⟩ := flushStaged_grown howned hf
  have hstep : ∀ {w : State}, Stepped g chain' w → Stepped g chain w := by
    rintro w ⟨chain'',hw,hdrop⟩
    exact ⟨chain'',hw,fun j c hc => hdrop j c (hkeep _ c hc)⟩
  rw [hf] at hdel
  dsimp only at hdel
  cases flushed with
  | false =>
    cases hdel
    split_ifs
    · exact hstep (hv.mark i true (v.files i).refCount).stepped
    · exact hstep hv.stepped
  | true =>
    rw [if_neg (by decide)] at hdel
    split_ifs at hdel
    · cases hdel
      exact hstep hv.stepped
    have heq := congrArg Prod.snd (some.inj hdel)
    dsimp only at heq
    rw [← heq]
    exact hstep (reclaim_stepped hv ((hlive i).mpr hui))

lemma closeFile_stepped
    (hc : closeFile g s i staged = some t) : Stepped g chain t := by
  rw [closeFile] at hc
  dsimp only at hc
  split_ifs at hc
  · cases hc
    exact h.stepped
  · obtain ⟨⟨ok,u⟩,hdel,rfl⟩ := map_eq_some_iff.mp hc
    exact deleteFileInternal_stepped
      (h.mark i (s.files i).unlinkPending ((s.files i).refCount-1)) hdel
  · cases hc
    exact (h.mark i (s.files i).unlinkPending ((s.files i).refCount-1)).stepped

lemma retainFile_owned : Owned g (retainFile s i) chain := by
  rw [retainFile]
  split_ifs
  · exact h.mark i (s.files i).unlinkPending (((s.files i).refCount+1)%2^32)
  · exact h

end MoQiOS.Fat32
