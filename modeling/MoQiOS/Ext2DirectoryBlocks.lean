import MoQiOS.Ext2Directory

/-!
# Changes of one directory block

The bindings of a block are the pairs of name and inode in the order of its
records. Splitting the last record appends one, removing takes the first one of
a name away and retargeting changes its inode, and the block stays tiled.
-/

namespace MoQiOS.Ext2Dir

open List

abbrev Binding := Bytes×UInt32

def bindingOf (block : Bytes) (r : ℕ×DirEntryView) : Option Binding :=
  if r.2.inode = 0 then none else some (nameOf block r.2,r.2.inode)

def blockBindings (bs : ℕ) (block : Bytes) : List Binding := (records bs block).filterMap (bindingOf block)

/-- What a record of the name is worth; inode 0 marks a record that is free. -/
def bound (name : Bytes) (inode : UInt32) : List Binding := if inode = 0 then [] else [(name,inode)]

def Rec.binding (r : Rec) : Option Binding := if r.inode = 0 then none else some (r.name,r.inode)

def Rec.isEntry (name : Bytes) (r : Rec) : Bool := decide (r.inode ≠ 0) && decide (r.name = name)

lemma Rec.bindings_cons (r : Rec) (rs : List Rec) :
    (r::rs).filterMap Rec.binding = bound r.name r.inode++rs.filterMap Rec.binding := by
  rw [filterMap_cons,binding,bound]
  split_ifs <;> rfl

variable {rs : List Rec} {pos : ℕ} {block : Bytes}

lemma layout_bindings (rest : Bytes) (h : block.drop pos = bytesOf rs++rest) :
    (layout pos rs).filterMap (bindingOf block) = rs.filterMap Rec.binding := by
  induction rs generalizing pos with
  | nil => rfl
  | cons r rs ih =>
    rw [bytesOf_cons,append_assoc] at h
    have hnext : block.drop (pos+r.recLen) = bytesOf rs++rest := by
      rw [← drop_drop,h,← Rec.bytes_length,drop_left]
    have hr : bindingOf block (pos,viewOf pos r) = r.binding := by
      rw [bindingOf,nameOf_bytes h]
      rfl
    rw [layout,filterMap_cons,filterMap_cons,hr,ih hnext]

variable {block name : Bytes}

lemma isEntry_bytes (rest : Bytes) {r : Rec} (h : block.drop pos = r.bytes++rest) :
    isEntry block name (viewOf pos r) = r.isEntry name := by
  rw [isEntry,nameOf_bytes h,Rec.isEntry]
  by_cases hn : r.name = name
  · simp [viewOf,hn]
  · simp [hn]

lemma layout_noEntry (rest : Bytes)
    (h : block.drop pos = bytesOf rs++rest) (hrs : ∀ r ∈ rs, r.isEntry name = false) :
    ∀ x ∈ layout pos rs, isEntry block name x.2 = false := by
  induction rs generalizing pos with
  | nil => exact fun x hx => absurd hx not_mem_nil
  | cons r rs ih =>
    rw [bytesOf_cons,append_assoc] at h
    have hnext : block.drop (pos+r.recLen) = bytesOf rs++rest := by
      rw [← drop_drop,h,← Rec.bytes_length,drop_left]
    intro x hx
    rcases mem_cons.mp hx with rfl | hx
    · rw [isEntry_bytes _ h]
      exact hrs r mem_cons_self
    · exact ih hnext (fun r hr => hrs r (mem_cons_of_mem _ hr)) x hx

variable {bs : ℕ}

lemma Tiled.bindings_eq (h : Tiled bs block rs) (hbs : bs ≤ 4096) :
    blockBindings bs block = rs.filterMap Rec.binding := by
  rw [blockBindings,h.records_eq hbs]
  exact layout_bindings [] (by rw [append_nil]; exact h.eq)

lemma Tiled.first_entry (h : Tiled bs block rs) (hbs : bs ≤ 4096) (name : Bytes) :
    ((∀ r ∈ rs, r.isEntry name = false) ∧ ∀ x ∈ records bs block, isEntry block name x.2 = false) ∨
    ∃ as r ts, rs = as++r::ts ∧ (∀ a ∈ as, a.isEntry name = false) ∧ r.isEntry name = true ∧
      records bs block = layout 0 as++((bytesOf as).length,viewOf (bytesOf as).length r)::
        layout ((bytesOf as).length+r.recLen) ts ∧
      (∀ x ∈ layout 0 as, isEntry block name x.2 = false) ∧
      isEntry block name (viewOf (bytesOf as).length r) = true := by
  cases hfind : rs.find? (Rec.isEntry name) with
  | none =>
    have hno : ∀ r ∈ rs, r.isEntry name = false := by
      intro r hr
      have := find?_eq_none.mp hfind r hr
      simpa using this
    refine .inl ⟨hno,?_⟩
    rw [h.records_eq hbs]
    exact layout_noEntry [] (by rw [append_nil]; exact h.eq) hno
  | some r =>
    obtain ⟨hr,as,ts,hsplit,has⟩ := find?_eq_some_iff_append.mp hfind
    have has : ∀ a ∈ as, a.isEntry name = false := by
      intro a ha
      have := has a ha
      simpa using this
    have hblock : block = bytesOf as++(r.bytes++bytesOf ts) := by
      rw [h.eq,hsplit,bytesOf_append,bytesOf_cons]
    refine .inr ⟨as,r,ts,hsplit,has,hr,?_,?_,?_⟩
    · rw [h.records_eq hbs,hsplit,layout_append,Nat.zero_add,layout]
    · exact layout_noEntry (r.bytes++bytesOf ts) hblock has
    · rw [isEntry_bytes (bytesOf ts) (by rw [hblock,drop_left]),hr]

lemma Rec.bytes_fields (r : Rec) : r.bytes =
    u32le r.inode++(u16le r.recLen++([UInt8.ofNat r.name.length]++([r.fileType]++(r.name++r.slack)))) := rfl

lemma Rec.absorb_aligned (q r : Rec) : (8+q.name.length+(q.slack++r.bytes).length)%4 = 0 := by
  have := q.aligned
  have := r.aligned
  rw [length_append,Rec.bytes_length,Rec.recLen]
  omega

def Rec.absorb (q r : Rec) : Rec where
  inode := q.inode
  fileType := q.fileType
  name := q.name
  slack := q.slack++r.bytes
  name_lt := q.name_lt
  aligned := Rec.absorb_aligned q r

lemma Rec.absorb_recLen (q r : Rec) : (q.absorb r).recLen = q.recLen+r.recLen := by
  unfold recLen absorb
  simp only [length_append,bytes_length,recLen]
  omega

lemma patch_recLen (as : List Rec) (q : Rec) (rest : Bytes) (n : ℕ) :
    patch (bytesOf as++(q.bytes++rest)) ((bytesOf as).length+4) (u16le n) =
      bytesOf as++(header q.inode n q.name.length q.fileType++(q.name++(q.slack++rest))) := by
  have hpatch := patch_middle (bytesOf as++u32le q.inode) (u16le q.recLen)
    ([UInt8.ofNat q.name.length]++([q.fileType]++(q.name++(q.slack++rest)))) (u16le n) rfl
  rw [Rec.bytes_fields]
  simp only [append_assoc,length_append] at hpatch ⊢
  refine hpatch.trans ?_
  simp only [header,append_assoc]
  rfl

lemma patch_inode (as : List Rec) (r : Rec) (rest : Bytes) (inode : UInt32) :
    patch (bytesOf as++(r.bytes++rest)) (bytesOf as).length (u32le inode) =
      bytesOf as++({r with inode := inode}.bytes++rest) := by
  have hpatch := patch_middle (bytesOf as) (u32le r.inode)
    (u16le r.recLen++([UInt8.ofNat r.name.length]++([r.fileType]++(r.name++(r.slack++rest))))) (u32le inode) rfl
  rw [Rec.bytes_fields,Rec.bytes_fields]
  simp only [append_assoc] at hpatch ⊢
  exact hpatch

lemma patch_type (as : List Rec) (r : Rec) (rest : Bytes) (fileType : UInt8) :
    patch (bytesOf as++(r.bytes++rest)) ((bytesOf as).length+7) [fileType] =
      bytesOf as++({r with fileType := fileType}.bytes++rest) := by
  have hpatch := patch_middle (bytesOf as++(u32le r.inode++(u16le r.recLen++[UInt8.ofNat r.name.length])))
    [r.fileType] (r.name++(r.slack++rest)) [fileType] rfl
  rw [Rec.bytes_fields,Rec.bytes_fields]
  simp only [append_assoc,length_append] at hpatch ⊢
  exact hpatch

variable {xs : List (ℕ×DirEntryView)}

lemma find_noEntry (h : ∀ x ∈ xs, isEntry block name x.2 = false) :
    xs.find? (fun x => isEntry block name x.2) = none := by
  refine find?_eq_none.mpr fun x hx => ?_
  rw [h x hx]
  exact Bool.false_ne_true

variable {view : DirEntryView}

lemma find_entry {ys : List (ℕ×DirEntryView)}
    (h : ∀ x ∈ xs, isEntry block name x.2 = false) (hv : isEntry block name view = true) :
    (xs++(pos,view)::ys).find? (fun x => isEntry block name x.2) = some (pos,view) := by
  rw [find?_append,find_noEntry h,Option.none_or]
  exact find?_cons_of_pos hv

lemma removeIn_skip {x : ℕ×DirEntryView} (h : isEntry block name x.2 = false)
    (prev : Option (ℕ×DirEntryView)) (xs : List (ℕ×DirEntryView)) :
    removeIn block name prev (x::xs) = removeIn block name (some x) xs := by
  cases prev <;> exact if_neg (by rw [h]; exact Bool.false_ne_true)

lemma removeIn_none
    (h : ∀ x ∈ xs, isEntry block name x.2 = false) (prev : Option (ℕ×DirEntryView)) :
    removeIn block name prev xs = none := by
  induction xs generalizing prev with
  | nil => cases prev <;> rfl
  | cons x xs ih =>
    rw [removeIn_skip (h x mem_cons_self)]
    exact ih (fun y hy => h y (mem_cons_of_mem _ hy)) _

lemma removeIn_later (hv : isEntry block name view = true)
    (pos : ℕ) (ys : List (ℕ×DirEntryView)) {p : ℕ} {w : DirEntryView}
    (hxs : ∀ x ∈ xs, isEntry block name x.2 = false) (hw : isEntry block name w = false)
    (prev : Option (ℕ×DirEntryView)) : removeIn block name prev (xs++(p,w)::(pos,view)::ys) =
      some (patch block (p+4) (u16le (w.recLen+view.recLen))) := by
  induction xs generalizing prev with
  | nil =>
    rw [nil_append,removeIn_skip hw,removeIn,if_pos hv]
  | cons x xs ih =>
    rw [cons_append,removeIn_skip (hxs x mem_cons_self)]
    exact ih (fun y hy => hxs y (mem_cons_of_mem _ hy)) _

lemma Rec.absorb_binding (q r : Rec) : (q.absorb r).binding = q.binding := rfl

section
variable {bs : ℕ} {block name : Bytes} {as ts : List Rec} {r : Rec}

variable (h : Tiled bs block (as++r::ts))
include h

lemma Tiled.around : block = bytesOf as++(r.bytes++bytesOf ts) := by
  rw [h.eq,bytesOf_append,bytesOf_cons]

lemma Tiled.remove
    (has : ∀ x ∈ layout 0 as, isEntry block name x.2 = false)
    (hv : isEntry block name (viewOf (bytesOf as).length r) = true) :
    ∃ block' rs, removeIn block name none (layout 0 as++((bytesOf as).length,viewOf (bytesOf as).length r)::
        layout ((bytesOf as).length+r.recLen) ts) = some block' ∧ Tiled bs block' rs ∧
      rs.filterMap Rec.binding = as.filterMap Rec.binding++ts.filterMap Rec.binding := by
  have hblock := h.around
  rcases eq_nil_or_concat as with rfl | ⟨as,q,rfl⟩
  -- the first record of a block has no record before it to take its bytes
  · refine ⟨patch block 0 (u32le 0),[]++([{r with inode := 0}]++ts),?_, h.replace [r] ?_ ?_,rfl⟩
    · rw [layout,nil_append,removeIn,if_pos hv]
      rfl
    · rw [bytesOf_cons,bytesOf_cons,length_append,length_append,Rec.bytes_length, Rec.bytes_length]
      rfl
    · rw [hblock]
      exact (patch_inode [] r (bytesOf ts) 0).trans (bytesOf_cons _ ts).symm
  · rw [concat_eq_append] at *
    rw [layout_append,Nat.zero_add] at has ⊢
    have hq := has _ (mem_append_right _ mem_cons_self)
    have hb : block = bytesOf as++(q.bytes++(r.bytes++bytesOf ts)) := by
      rw [hblock,bytesOf_append,bytesOf_cons,append_assoc,append_assoc]
      rfl
    have habsorb : (q.absorb r).bytes = header q.inode (q.recLen+r.recLen) q.name.length q.fileType++
        (q.name++(q.slack++r.bytes)) := by
      rw [← Rec.absorb_recLen]
      exact append_assoc _ _ _
    rw [append_assoc] at h
    refine ⟨patch block ((bytesOf as).length+4) (u16le (q.recLen+r.recLen)),as++([q.absorb r]++ts),?_,
      h.replace [q,r] ?_ ?_,?_⟩
    · rw [append_assoc]
      exact removeIn_later hv _ _ (fun x hx => has x (mem_append_left _ hx)) hq none
    · simp only [bytesOf_cons,length_append,Rec.bytes_length,Rec.absorb_recLen]
      omega
    · rw [hb,patch_recLen,bytesOf_append,singleton_append,bytesOf_cons,habsorb]
      simp only [append_assoc]
    · simp only [filterMap_append,append_assoc,filterMap_cons,filterMap_nil,Rec.absorb_binding]

lemma Tiled.retarget (hr : r.isEntry name = true)
    (has : ∀ x ∈ layout 0 as, isEntry block name x.2 = false)
    (hv : isEntry block name (viewOf (bytesOf as).length r) = true) (newInode : UInt32)
    (newType : Option UInt8) : ∃ block' rs, retargetIn block name newInode newType
        (layout 0 as++((bytesOf as).length,viewOf (bytesOf as).length r)::
          layout ((bytesOf as).length+r.recLen) ts) = some block' ∧ Tiled bs block' rs ∧
      rs.filterMap Rec.binding = as.filterMap Rec.binding++
        (bound name newInode++ts.filterMap Rec.binding) := by
  have hblock := h.around
  have hname : r.name = name := by
    rw [Rec.isEntry,Bool.and_eq_true] at hr
    exact of_decide_eq_true hr.2
  refine ⟨_,as++([{r with inode := newInode, fileType := newType.getD r.fileType}]++ts),
    by rw [retargetIn,find_entry has hv]; rfl,h.replace [r] ?_ ?_,?_⟩
  · rw [bytesOf_cons,bytesOf_cons,length_append,length_append,Rec.bytes_length, Rec.bytes_length]
    rfl
  · rw [singleton_append,bytesOf_append,bytesOf_cons]
    cases newType with
    | none =>
      rw [hblock]
      exact patch_inode as r (bytesOf ts) newInode
    | some fileType =>
      dsimp only
      rw [hblock,patch_inode]
      exact patch_type as {r with inode := newInode} (bytesOf ts) fileType
  · rw [filterMap_append,singleton_append,Rec.bindings_cons,← hname]

end

lemma Rec.padding (q : Rec) :
    align4 (8+q.name.length) ≤ q.recLen ∧ 8+q.name.length ≤ align4 (8+q.name.length) := by
  have := q.aligned
  rw [align4,recLen]
  omega

lemma Rec.shrink_aligned (q : Rec) : (8+q.name.length+
    (q.slack.take (align4 (8+q.name.length)-(8+q.name.length))).length)%4 = 0 := by
  have := q.padding
  rw [recLen] at this
  rw [length_take,Nat.min_eq_left (by omega),Nat.add_sub_cancel' this.2,align4]
  omega

def Rec.shrink (q : Rec) : Rec where
  inode := q.inode
  fileType := q.fileType
  name := q.name
  slack := q.slack.take (align4 (8+q.name.length)-(8+q.name.length))
  name_lt := q.name_lt
  aligned := q.shrink_aligned

lemma Rec.shrink_recLen (q : Rec) : q.shrink.recLen = align4 (8+q.name.length) := by
  have := q.padding
  rw [recLen] at this
  rw [recLen]
  change 8+q.name.length+(List.take _ _).length = _
  rw [length_take,Nat.min_eq_left (by omega),Nat.add_sub_cancel' this.2]

lemma Rec.behind_aligned (q : Rec) {name : Bytes}
    (hfit : align4 (8+name.length) ≤ q.recLen-align4 (8+q.name.length)) : (8+name.length+((q.slack.drop
      (align4 (8+q.name.length)-(8+q.name.length))).drop (8+name.length)).length)%4 = 0 := by
  have := q.padding
  have := q.aligned
  rw [length_drop,length_drop]
  unfold recLen align4 at *
  omega

def Rec.behind (q : Rec) (target : UInt32) (fileType : UInt8) (name : Bytes) (hname : name.length < 256)
    (hfit : align4 (8+name.length) ≤ q.recLen-align4 (8+q.name.length)) : Rec where
  inode := target
  fileType := fileType
  name := name
  slack := (q.slack.drop (align4 (8+q.name.length)-(8+q.name.length))).drop (8+name.length)
  name_lt := hname
  aligned := q.behind_aligned hfit

section
variable {q : Rec} {name : Bytes} (hname : name.length < 256)
  (hfit : align4 (8+name.length) ≤ q.recLen-align4 (8+q.name.length))

lemma Rec.behind_recLen (target : UInt32) (fileType : UInt8) :
    (q.behind target fileType name hname hfit).recLen = q.recLen-align4 (8+q.name.length) := by
  have := q.padding
  change 8+name.length+(List.drop _ (List.drop _ _)).length = _
  rw [length_drop,length_drop]
  unfold recLen align4 at *
  omega

lemma Rec.shrink_bytes (q : Rec) : q.shrink.bytes =
    header q.inode (align4 (8+q.name.length)) q.name.length q.fileType++q.name++q.shrink.slack := by
  rw [← q.shrink_recLen]
  rfl

lemma Rec.behind_bytes (target : UInt32) (fileType : UInt8) :
    (q.behind target fileType name hname hfit).bytes =
      header target (q.recLen-align4 (8+q.name.length)) name.length fileType++name++
        (q.behind target fileType name hname hfit).slack := by
  rw [← q.behind_recLen hname hfit target fileType]
  rfl

lemma Tiled.split {as : List Rec} (h : Tiled bs block (as++[q]))
    (target : UInt32) (fileType : UInt8) :
    Tiled bs (patch (patch block ((bytesOf as).length+4) (u16le (align4 (8+q.name.length))))
        ((bytesOf as).length+align4 (8+q.name.length))
        (header target (q.recLen-align4 (8+q.name.length)) name.length fileType++name))
      (as++([q.shrink,q.behind target fileType name hname hfit]++[])) := by
  have hpad := q.padding
  let taken := (q.slack.drop (align4 (8+q.name.length)-(8+q.name.length))).take (8+name.length)
  have htaken : taken.length = 8+name.length := by
    rw [length_take,length_drop,Nat.min_eq_left]
    unfold Rec.recLen align4 at *
    omega
  -- the slack is the padding of the old name, what the new record overwrites, and its slack
  have hslack : q.slack = q.shrink.slack++(taken++(q.behind target fileType name hname hfit).slack) := by
    change _ = List.take _ _++(List.take _ _++List.drop _ _)
    rw [take_append_drop,take_append_drop]
  have hfirst : patch block ((bytesOf as).length+4) (u16le (align4 (8+q.name.length))) =
      bytesOf as++q.shrink.bytes++taken++(q.behind target fileType name hname hfit).slack := by
    rw [h.around,patch_recLen,q.shrink_bytes]
    nth_rewrite 1 [hslack]
    simp only [append_assoc,bytesOf_nil,append_nil]
  refine h.replace [q] ?_ ?_
  · simp only [bytesOf_cons,length_append,Rec.bytes_length,Rec.shrink_recLen,Rec.behind_recLen]
    omega
  · have hpos : (bytesOf as).length+align4 (8+q.name.length) = (bytesOf as++q.shrink.bytes).length := by
      rw [length_append,Rec.bytes_length,Rec.shrink_recLen]
    rw [hfirst,hpos,patch_middle]
    · simp only [bytesOf_append,bytesOf_cons,Rec.behind_bytes,append_assoc,bytesOf_nil, append_nil]
    · rw [length_append,header_length,htaken]

end

lemma Tiled.splitLast_eq {block block' name : Bytes} (h : Tiled bs block rs)
    (hbs : bs ≤ 4096) (hname : name.length < 256) {target : UInt32} {fileType : UInt8}
    (hsplit : splitLast bs block target name fileType = some block') : ∃ rs', Tiled bs block' rs' ∧
      rs'.filterMap Rec.binding = rs.filterMap Rec.binding++bound name target := by
  rcases eq_nil_or_concat rs with rfl | ⟨as,q,rfl⟩
  · rw [splitLast,h.records_eq hbs] at hsplit
    exact absurd hsplit (by simp [layout])
  rw [concat_eq_append] at *
  rw [splitLast,h.records_eq hbs,layout_append,Nat.zero_add,layout,layout,getLast?_concat] at hsplit
  simp only [Option.ite_none_right_eq_some,Option.some.injEq] at hsplit
  obtain ⟨hfit,rfl⟩ := hsplit
  refine ⟨_,h.split hname hfit target fileType,?_⟩
  simp only [filterMap_append,Rec.bindings_cons,append_assoc,filterMap_nil,append_nil]
  rfl

lemma freshBlock_tiled {name : Bytes} (hname : name.length < 256) (hbs : 264 ≤ bs)
    (haligned : bs%4 = 0) (target : UInt32) (fileType : UInt8) :
    ∃ rs, Tiled bs (freshBlock bs target name fileType) rs ∧ rs.filterMap Rec.binding = bound name target := by
  have hlen : 8+name.length+(List.replicate (bs-8-name.length) (0 : UInt8)).length = bs := by
    rw [length_replicate]
    omega
  let r : Rec := ⟨target,fileType,name,List.replicate (bs-8-name.length) 0,hname,hlen.symm ▸ haligned⟩
  have hr : r.recLen = bs := hlen
  refine ⟨[r],⟨?_,?_⟩,?_⟩
  · rw [bytesOf_cons,bytesOf_nil,append_nil,Rec.bytes,hr]
    rfl
  · rw [freshBlock,length_append,length_append,header_length]
    exact hlen
  · rw [Rec.bindings_cons]
    exact append_nil _

end MoQiOS.Ext2Dir
