import MoQiOS.Ext2DirectoryBlocks
import MoQiOS.Ext2Truncate

/-!
# Directories act as maps

The bindings of a directory are those of its blocks one after the other, and a
lookup takes the first one of the name. Adding appends a binding, removing takes
the first one of the name away and retargeting changes its inode.
-/

namespace MoQiOS.Ext2Dir

open Ext2 List Option

def bindings (bs : ℕ) (dir : Directory) : List Binding :=
  dir.flatMap fun block => (block.map (blockBindings bs)).getD []

def TiledDir (bs : ℕ) (dir : Directory) : Prop := ∀ block, some block ∈ dir → ∃ rs, Tiled bs block rs

structure Io.Works (io : Io) : Prop where
  read : ∀ i, io.readOk i = true
  write : ∀ i, io.writeOk i = true
  alloc : io.allocOk = true

def Replaced (name : Bytes) (new before after : List Binding) : Prop :=
  ∃ left inode right, before = left++(name,inode)::right ∧ (∀ b ∈ left, b.1 ≠ name) ∧
    after = left++(new++right)

/-- What an edit of a block may do: nothing when the name is not bound there. -/
def EditsFirst (bs : ℕ) (name : Bytes) (new : List Binding) (block : Bytes) : Option Bytes → Prop
  | none => ∀ b ∈ blockBindings bs block, b.1 ≠ name
  | some block' => (∃ rs, Tiled bs block' rs) ∧
      Replaced name new (blockBindings bs block) (blockBindings bs block')

variable {name : Bytes}

lemma Replaced.behind {new before after front : List Binding} (h : Replaced name new before after)
    (hfront : ∀ b ∈ front, b.1 ≠ name) : Replaced name new (front++before) (front++after) := by
  obtain ⟨left,inode,right,rfl,hleft,rfl⟩ := h
  refine ⟨front++left,inode,right,by rw [append_assoc],fun b hb => ?_,by rw [append_assoc]⟩
  rcases mem_append.mp hb with hb | hb
  · exact hfront b hb
  · exact hleft b hb

lemma Replaced.before {new before after : List Binding} (h : Replaced name new before after)
    (rest : List Binding) : Replaced name new (before++rest) (after++rest) := by
  obtain ⟨left,inode,right,rfl,hleft,rfl⟩ := h
  refine ⟨left,inode,right++rest,?_,hleft,?_⟩
  · rw [append_assoc,cons_append]
  · rw [append_assoc,append_assoc]

lemma find_unbound {l : List Binding} (h : ∀ b ∈ l, b.1 ≠ name) :
    l.find? (fun b => b.1 = name) = none := by
  refine find?_eq_none.mpr fun b hb => ?_
  rw [decide_eq_true_eq]
  exact h b hb

lemma Rec.isEntry_binding {r : Rec} (h : r.isEntry name = true) :
    r.binding = some (name,r.inode) := by
  simp only [isEntry,Bool.and_eq_true,decide_eq_true_eq] at h
  rw [binding,if_neg h.1,h.2]

lemma unbound_of_noEntry {rs : List Rec} (h : ∀ r ∈ rs, r.isEntry name = false) :
    ∀ b ∈ rs.filterMap Rec.binding, b.1 ≠ name := by
  intro b hb hname
  obtain ⟨r,hr,hbinding⟩ := mem_filterMap.mp hb
  have hno := h r hr
  rw [Rec.binding,ite_none_left_eq_some,Option.some.injEq] at hbinding
  obtain ⟨hinode,rfl⟩ := hbinding
  simp [Rec.isEntry,hinode] at hno
  exact hno hname

section
variable {bs : ℕ} {block : Bytes} {rs : List Rec} (h : Tiled bs block rs) (hbs : bs ≤ 4096)
include h hbs

lemma Tiled.replaced {as ts : List Rec} {r : Rec} {block' : Bytes} {rs' : List Rec}
    {new : List Binding} (hrs : rs = as++r::ts) (has : ∀ a ∈ as, a.isEntry name = false)
    (hr : r.isEntry name = true) (h' : Tiled bs block' rs')
    (hnew : rs'.filterMap Rec.binding = as.filterMap Rec.binding++(new++ts.filterMap Rec.binding)) :
    EditsFirst bs name new block (some block') := by
  refine ⟨⟨rs',h'⟩,as.filterMap Rec.binding,r.inode,ts.filterMap Rec.binding,?_,unbound_of_noEntry has,?_⟩
  · rw [h.bindings_eq hbs,hrs,filterMap_append,filterMap_cons,Rec.isEntry_binding hr]
  · rw [h'.bindings_eq hbs,hnew]

lemma Tiled.left_alone (hno : ∀ r ∈ rs, r.isEntry name = false) (new : List Binding) :
    EditsFirst bs name new block none := by
  change ∀ b ∈ blockBindings bs block, b.1 ≠ name
  rw [h.bindings_eq hbs]
  exact unbound_of_noEntry hno

lemma removeIn_edits (name : Bytes) :
    EditsFirst bs name [] block (removeIn block name none (records bs block)) := by
  rcases h.first_entry hbs name with ⟨hno,hrecords⟩ | ⟨as,r,ts,hrs,has,hr,hrecords,hlayout,hv⟩
  · rw [removeIn_none hrecords]
    exact h.left_alone hbs hno []
  obtain ⟨block',rs',heq,h',hnew⟩ := (hrs ▸ h).remove hlayout hv
  rw [hrecords,heq]
  exact h.replaced hbs hrs has hr h' hnew

lemma retargetIn_edits (name : Bytes) (newInode : UInt32) (newType : Option UInt8) :
    EditsFirst bs name (bound name newInode) block
      (retargetIn block name newInode newType (records bs block)) := by
  rcases h.first_entry hbs name with ⟨hno,hrecords⟩ | ⟨as,r,ts,hrs,has,hr,hrecords,hlayout,hv⟩
  · rw [retargetIn,find_noEntry hrecords]
    exact h.left_alone hbs hno _
  obtain ⟨block',rs',heq,h',hnew⟩ := (hrs ▸ h).retarget hr hlayout hv newInode newType
  rw [hrecords,heq]
  exact h.replaced hbs hrs has hr h' hnew

lemma Tiled.lookup (name : Bytes) :
    ((records bs block).find? fun x => isEntry block name x.2).map (·.2.inode) =
      ((blockBindings bs block).find? fun b => b.1 = name).map (·.2) := by
  rw [h.bindings_eq hbs]
  rcases h.first_entry hbs name with ⟨hno,hrecords⟩ | ⟨as,r,ts,hrs,has,hr,hrecords,hlayout,hv⟩
  · rw [find_noEntry hrecords,find_unbound (unbound_of_noEntry hno)]
    rfl
  rw [hrecords,find_entry hlayout hv,hrs,filterMap_append,filterMap_cons,
    Rec.isEntry_binding hr,find?_append,find_unbound (unbound_of_noEntry has),none_or]
  dsimp only
  rw [find?_cons_of_pos]
  · rfl
  · exact decide_eq_true rfl

end

variable {dir : Directory} {bs : ℕ}

lemma TiledDir.tail {block : Option Bytes} (h : TiledDir bs (block::dir)) : TiledDir bs dir :=
  fun b hb => h b (mem_cons_of_mem _ hb)

variable {block : Bytes}

lemma TiledDir.cons (hblock : ∃ rs, Tiled bs block rs)
    (h : TiledDir bs dir) : TiledDir bs (some block::dir) := by
  intro b hb
  rcases mem_cons.mp hb with heq | hb
  · rw [some.inj heq]
    exact hblock
  · exact h b hb

lemma bindings_cons (bs : ℕ) (block : Bytes) (dir : Directory) :
    bindings bs (some block::dir) = blockBindings bs block++bindings bs dir := flatMap_cons

lemma bindings_append (bs : ℕ) (dir dir' : Directory) :
    bindings bs (dir++dir') = bindings bs dir++bindings bs dir' := flatMap_append

lemma findDirEntry_bindings (hbs : bs ≤ 4096) (h : TiledDir bs dir) (name : Bytes) :
    findDirEntry bs dir name = ((bindings bs dir).find? fun b => b.1 = name).map (·.2) := by
  induction dir with
  | nil => rfl
  | cons block dir ih =>
    rcases block with _ | block
    · exact ih h.tail
    obtain ⟨rs,hrs⟩ := h block mem_cons_self
    have hblock := hrs.lookup hbs name
    rw [bindings_cons,find?_append,findDirEntry,findSome?_cons,bind_some,hblock]
    cases (blockBindings bs block).find? fun b => b.1 = name with
    | none => exact ih h.tail
    | some b => rfl

section
variable {bs : ℕ} {name : Bytes} {new : List Binding} {edit : Bytes → Option Bytes} {io : Io}
  (hedit : ∀ block rs, Tiled bs block rs → EditsFirst bs name new block (edit block))
include hedit

lemma editFirst_replaced {dir' : Directory} {i : ℕ} (hdir : TiledDir bs dir)
    (h : editFirst io edit i dir = some dir') :
    TiledDir bs dir' ∧ Replaced name new (bindings bs dir) (bindings bs dir') := by
  induction dir generalizing i dir' with
  | nil => exact absurd h (by rw [editFirst]; exact some_ne_none _ ∘ Eq.symm)
  | cons block dir ih =>
    cases block with
    | none =>
      rw [editFirst,map_eq_some_iff] at h
      obtain ⟨rest,hrest,rfl⟩ := h
      obtain ⟨htiled,hreplaced⟩ := ih hdir.tail hrest
      refine ⟨fun b hb => htiled b ?_,hreplaced⟩
      exact (mem_cons.mp hb).resolve_left (some_ne_none b)
    | some block =>
      obtain ⟨rs,hrs⟩ := hdir block mem_cons_self
      have hblock := hedit block rs hrs
      rw [editFirst,ite_none_right_eq_some] at h
      obtain ⟨_,h⟩ := h
      cases heq : edit block with
      | none =>
        rw [heq] at h hblock
        obtain ⟨rest,hrest,rfl⟩ := map_eq_some_iff.mp h
        obtain ⟨htiled,hreplaced⟩ := ih hdir.tail hrest
        rw [bindings_cons,bindings_cons]
        exact ⟨htiled.cons ⟨rs,hrs⟩,hreplaced.behind hblock⟩
      | some block' =>
        rw [heq] at h hblock
        obtain ⟨_,h⟩ := ite_none_right_eq_some.mp h
        cases h
        rw [bindings_cons,bindings_cons]
        exact ⟨hdir.tail.cons hblock.1,hblock.2.before _⟩

lemma editFirst_isSome (i : ℕ) (hdir : TiledDir bs dir) (hio : io.Works)
    (hbound : ∃ b ∈ bindings bs dir, b.1 = name) : (editFirst io edit i dir).isSome := by
  induction dir generalizing i with
  | nil =>
    obtain ⟨b,hb,_⟩ := hbound
    exact absurd hb not_mem_nil
  | cons block dir ih =>
    rcases block with _ | block
    · rw [editFirst,isSome_map]
      exact ih (i+1) hdir.tail hbound
    obtain ⟨rs,hrs⟩ := hdir block mem_cons_self
    have hblock := hedit block rs hrs
    rw [editFirst,if_pos (hio.read i)]
    cases heq : edit block with
    | some block' =>
      dsimp only
      rw [if_pos (hio.write i)]
      rfl
    | none =>
      rw [heq] at hblock
      obtain ⟨b,hb,hname⟩ := hbound
      rw [bindings_cons] at hb
      have hrest := (mem_append.mp hb).resolve_left fun hb => hblock b hb hname
      dsimp only
      rw [isSome_map]
      exact ih (i+1) hdir.tail ⟨b,hrest,hname⟩

end

lemma splitBlock_some {io : Io} {target : UInt32} {name block' : Bytes}
    {fileType : UInt8} (h : splitBlock io bs dir target name fileType = some block') :
    ∃ front block, dir = front++[some block] ∧ splitLast bs block target name fileType = some block' := by
  rw [splitBlock] at h
  split at h
  case h_1 block hlast =>
    obtain ⟨front,hfront⟩ := getLast?_eq_some_iff.mp hlast
    exact ⟨front,block,hfront,(ite_none_right_eq_some.mp h).2⟩
  case h_2 => exact absurd h.symm (some_ne_none _)

lemma TiledDir.snoc (hdir : TiledDir bs dir)
    (hblock : ∃ rs, Tiled bs block rs) : TiledDir bs (dir++[some block]) := by
  intro b hb
  rcases mem_append.mp hb with hb | hb
  · exact hdir b hb
  · rw [some.inj (mem_singleton.mp hb)]
    exact hblock

lemma bindings_snoc (hbs : bs ≤ 4096) (dir : Directory) {rs : List Rec} (h : Tiled bs block rs) :
    bindings bs (dir++[some block]) = bindings bs dir++rs.filterMap Rec.binding := by
  rw [bindings_append,bindings_cons,h.bindings_eq hbs]
  exact congrArg _ (append_nil _)

lemma addDirEntry_appends (hle : bs ≤ 4096) (hge : 264 ≤ bs) (haligned : bs%4 = 0) {io : Io}
    {dir' : Directory} (hdir : TiledDir bs dir) {target : UInt32} {fileType : UInt8}
    (h : addDirEntry io bs dir target name fileType = some dir') :
    TiledDir bs dir' ∧ bindings bs dir' = bindings bs dir++bound name target := by
  rw [addDirEntry,ite_none_left_eq_some] at h
  obtain ⟨hname,h⟩ := h
  rw [Nat.not_le] at hname
  cases hsplit : splitBlock io bs dir target name fileType with
  | some block' =>
    rw [hsplit] at h
    obtain ⟨_,h⟩ := ite_none_right_eq_some.mp h
    cases h
    obtain ⟨front,block,rfl,hlast⟩ := splitBlock_some hsplit
    obtain ⟨rs,hrs⟩ := hdir block (mem_append_right _ mem_cons_self)
    obtain ⟨rs',hrs',hnew⟩ := hrs.splitLast_eq hle hname hlast
    rw [dropLast_concat,bindings_snoc hle front hrs,bindings_snoc hle front hrs',hnew,append_assoc]
    exact ⟨TiledDir.snoc (fun b hb => hdir b (mem_append_left _ hb)) ⟨rs',hrs'⟩,rfl⟩
  | none =>
    rw [hsplit] at h
    obtain ⟨_,h⟩ := ite_none_right_eq_some.mp h
    cases h
    obtain ⟨rs,hrs,hnew⟩ := freshBlock_tiled hname hge haligned target fileType
    exact ⟨hdir.snoc ⟨rs,hrs⟩,by rw [bindings_snoc hle dir hrs,hnew]⟩

lemma addDirEntry_isSome {io : Io} (hio : io.Works)
    (hsize : (dir.length+1)*bs < 2^32) (hname : name.length < 256) (target : UInt32)
    (fileType : UInt8) : (addDirEntry io bs dir target name fileType).isSome := by
  rw [addDirEntry,if_neg (Nat.not_le.mpr hname)]
  cases splitBlock io bs dir target name fileType with
  | some block' =>
    dsimp only
    rw [if_pos (hio.write _)]
    rfl
  | none =>
    dsimp only
    rw [if_pos ⟨hio.alloc,hsize,hio.write _⟩]
    rfl

lemma Replaced.other {name other : Bytes} (hne : other ≠ name) {new before after : List Binding}
    (h : Replaced name new before after) (hnew : ∀ b ∈ new, b.1 = name) :
    after.find? (fun b => b.1 = other) = before.find? (fun b => b.1 = other) := by
  obtain ⟨left,inode,right,rfl,_,rfl⟩ := h
  have hnone := find_unbound fun b hb => (hnew b hb).trans_ne hne.symm
  rw [find?_append,find?_append,find?_append,hnone,find?_cons_of_neg]
  · rfl
  · rw [decide_eq_true_eq]
    exact hne.symm

lemma bound_name (name : Bytes) (inode : UInt32) : ∀ b ∈ bound name inode, b.1 = name := by
  intro b hb
  rw [bound] at hb
  split_ifs at hb
  · exact absurd hb not_mem_nil
  · rw [mem_singleton.mp hb]

lemma blockSize_range (g : Geometry) :
    g.blockSize ≤ 4096 ∧ 264 ≤ g.blockSize ∧ g.blockSize%4 = 0 := by
  unfold Geometry.blockSize
  generalize g.logBlockSize = k
  revert k
  decide

structure ChangesOnly (bs : ℕ) (name : Bytes) (dir dir' : Directory) : Prop where
  tiled : TiledDir bs dir'
  others : ∀ other, other ≠ name → findDirEntry bs dir' other = findDirEntry bs dir other

lemma ChangesOnly.of_replaced (hbs : bs ≤ 4096) {dir' : Directory}
    (hdir : TiledDir bs dir) (hdir' : TiledDir bs dir') {new : List Binding} (hnew : ∀ b ∈ new, b.1 = name)
    (h : Replaced name new (bindings bs dir) (bindings bs dir')) : ChangesOnly bs name dir dir' := by
  refine ⟨hdir',fun other hne => ?_⟩
  rw [findDirEntry_bindings hbs hdir,findDirEntry_bindings hbs hdir',h.other hne hnew]

/-- Adding appends the binding, removing takes the first one of the name away
and retargeting gives it the new inode; each succeeds when the device does. -/
theorem directories_act_as_maps (g : Geometry) (io : Io) (dir : Directory) (name : Bytes)
    (hdir : TiledDir g.blockSize dir) : (∀ target fileType,
      (∀ dir', addDirEntry io g.blockSize dir target name fileType = some dir' →
        ChangesOnly g.blockSize name dir dir' ∧
        bindings g.blockSize dir' = bindings g.blockSize dir++bound name target) ∧
      (io.Works → name.length < 256 → (dir.length+1)*g.blockSize < 2^32 →
        (addDirEntry io g.blockSize dir target name fileType).isSome)) ∧
    ((∀ dir', removeDirEntry io g.blockSize dir name = some dir' →
        ChangesOnly g.blockSize name dir dir' ∧
        Replaced name [] (bindings g.blockSize dir) (bindings g.blockSize dir')) ∧
      (io.Works → (∃ b ∈ bindings g.blockSize dir, b.1 = name) →
        (removeDirEntry io g.blockSize dir name).isSome)) ∧
    (∀ newInode newType,
      (∀ dir', retargetDirEntryTyped io g.blockSize dir name newInode newType = some dir' →
        ChangesOnly g.blockSize name dir dir' ∧
        Replaced name (bound name newInode) (bindings g.blockSize dir) (bindings g.blockSize dir')) ∧
      (io.Works → (∃ b ∈ bindings g.blockSize dir, b.1 = name) →
        (retargetDirEntryTyped io g.blockSize dir name newInode newType).isSome)) := by
  obtain ⟨hle,hge,haligned⟩ := blockSize_range g
  have hremove := fun block rs (h : Tiled g.blockSize block rs) => removeIn_edits h hle name
  refine ⟨fun target fileType => ⟨fun dir' h => ?_,fun hio hname hsize => ?_⟩,⟨fun dir' h => ?_,
    fun hio hbound => editFirst_isSome hremove 0 hdir hio hbound⟩,fun newInode newType => ?_⟩
  · obtain ⟨hdir',hbindings⟩ := addDirEntry_appends hle hge haligned hdir h
    refine ⟨⟨hdir',fun other hne => ?_⟩,hbindings⟩
    have hnone := find_unbound fun b hb => (bound_name name target b hb).trans_ne hne.symm
    rw [findDirEntry_bindings hle hdir, findDirEntry_bindings hle hdir', hbindings, find?_append,
      hnone, or_none]
  · exact addDirEntry_isSome hio hsize hname target fileType
  · obtain ⟨hdir',hreplaced⟩ := editFirst_replaced hremove hdir h
    exact ⟨.of_replaced hle hdir hdir' (fun b hb => absurd hb not_mem_nil) hreplaced,hreplaced⟩
  · have hretarget := fun block rs (h : Tiled g.blockSize block rs) =>
      retargetIn_edits h hle name newInode newType
    refine ⟨fun dir' h => ?_,fun hio hbound => editFirst_isSome hretarget 0 hdir hio hbound⟩
    obtain ⟨hdir',hreplaced⟩ := editFirst_replaced hretarget hdir h
    exact ⟨.of_replaced hle hdir hdir' (bound_name name newInode) hreplaced,hreplaced⟩

theorem directories_act_as_maps_oneEntry :
    ∃ dir', addDirEntry ⟨fun _ => true,fun _ => true,true⟩ 1024 [some (freshBlock 1024 11 [97] 1)] 12 [98] 2 =
        some dir' ∧ bindings 1024 dir' = [([97],11),([98],12)] := by
  obtain ⟨rs,hrs,hbindings⟩ := @freshBlock_tiled 1024 [97] (by decide) (by decide) (by decide) 11 1
  have hdir : TiledDir 1024 [some (freshBlock 1024 11 [97] 1)] :=
    TiledDir.cons ⟨rs,hrs⟩ fun b hb => absurd hb not_mem_nil
  have hmap := (directories_act_as_maps ⟨0,1,8192,1⟩ ⟨fun _ => true,fun _ => true,true⟩ _ [98] hdir).1 12 2
  obtain ⟨dir',hadd⟩ := isSome_iff_exists.mp
    (hmap.2 ⟨fun _ => rfl,fun _ => rfl,rfl⟩ (by decide) (by decide))
  refine ⟨dir',hadd,(hmap.1 dir' hadd).2.trans ?_⟩
  have hold := bindings_snoc (by decide) [] hrs
  rw [hbindings] at hold
  exact congrArg (·++bound [98] 12) hold

end MoQiOS.Ext2Dir
