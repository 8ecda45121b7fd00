import MoQiOS.Runs

/-!
# Short names in the root directory

The live short entries of the root directory, newest first, and the table of
files, under creations and deletions. Which cluster and which table slot a
creation gets comes from outside. A long name gets an alias that no live entry
has; a name that fits into eight and three characters is encoded without a look
at the directory.
-/

namespace MoQiOS.Fat32.Root
open Runs Function List

abbrev Name := List UInt8

def dot : UInt8 := 46
def space : UInt8 := 32

def upper (c : UInt8) : UInt8 := if 97 ≤ c ∧ c ≤ 122 then c-32 else c
def lower (c : UInt8) : UInt8 := if 65 ≤ c ∧ c ≤ 90 then c+32 else c

def padded (n : ℕ) (w : Name) : Name := w.take n++List.replicate (n-w.length) space

/-- The extension follows the first dot. -/
def encode83Name (name : Name) : Name :=
  padded 8 ((name.takeWhile (· ≠ dot)).map upper)++
    padded 3 (((name.dropWhile (· ≠ dot)).drop 1).map upper)

def decode83Name (short : Name) : Name :=
  let ext := (short.drop 8).takeWhile (· ≠ space)
  (((short.take 8).takeWhile (· ≠ space))++if ext = [] then [] else dot :: ext).map lower

def fits83Name (name : Name) : Bool :=
  decide (name ≠ [] ∧ name.length ≤ 12) &&
    decide ((decode83Name (encode83Name name)).map lower = name.map lower)

/-- `$%'-_@~` and the rest of the punctuation that short names keep. -/
def punctuation : Name := [36,37,39,45,95,64,126,96,33,40,41,123,125,94,35,38]

def dosUpperChar (c : UInt8) : Option UInt8 :=
  if 97 ≤ c ∧ c ≤ 122 then some (c-32)
  else if (65 ≤ c ∧ c ≤ 90) ∨ (48 ≤ c ∧ c ≤ 57) ∨ c ∈ punctuation then some c
  else none

/-- The extension follows the last dot. -/
def make83Alias (name : Name) (suffix : ℕ) : Name :=
  let ext := if dot ∈ name then (name.reverse.takeWhile (· ≠ dot)).reverse else []
  let base := if dot ∈ name then ((name.reverse.dropWhile (· ≠ dot)).drop 1).reverse else name
  let chars := (base.filterMap dosUpperChar).take 6
  let chars := if chars = [] then [70] else chars
  padded 8 (chars++[126,.ofNat (48+(if suffix = 0 then 1 else suffix)%10)])++
    padded 3 ((ext.filterMap dosUpperChar).take 3)

structure Entry where
  short : Name
  firstCluster : ℕ
  created : Name

structure File where
  name : Name
  firstCluster : ℕ
  unlinkPending : Bool

structure State where
  entries : List Entry
  files : ℕ → Option File
  used : List Name

def maxFiles : ℕ := 64

def openFile (s : State) (name : Name) : Option ℕ :=
  (List.range maxFiles).find? fun i =>
    (s.files i).any fun f => !f.unlinkPending && decide (f.name = name)

def freeAlias (s : State) (name : Name) : Option Name :=
  ((List.range' 1 9).map (make83Alias name)).find? fun short =>
    !s.entries.any fun e => decide (e.short = short)

/-- What a creation meets: a free table slot and cluster, whether the long name can
be written, and whether the directory has room. -/
structure Env where
  slot : Option ℕ
  cluster : Option ℕ
  lfnOk : Bool
  room : Bool

def shortName (s : State) (name : Name) (lfnOk : Bool) : Option Name :=
  if fits83Name name then some (encode83Name name)
  else (freeAlias s name).filter fun _ => lfnOk

/-- An entry that begins with the mark of a deleted one is not seen again. -/
def addEntry (entries : List Entry) (e : Entry) : List Entry :=
  if e.short.head? = some 0xE5 then entries else e :: entries

def createFile (s : State) (name : Name) (env : Env) : State :=
  let s := { s with used := name :: s.used }
  if name = [] ∨ 47 ∈ name.tail ∨ 256 ≤ name.length ∨ (openFile s name).isSome then s
  else
    match env.slot, env.cluster, shortName s name env.lfnOk, env.room with
    | some i, some c, some short, true =>
      { s with entries := addEntry s.entries ⟨short,c,name⟩
               files := update s.files i (some ⟨name,c,false⟩) }
    | _, _, _, _ => s

/-- The entry is found by its first cluster; the slot stays while the file is open. -/
def deleteFile (s : State) (i : ℕ) (busy : Bool) : State :=
  match s.files i with
  | none => s
  | some f =>
    if f.unlinkPending ∨ ¬s.entries.any (fun e => decide (e.firstCluster = f.firstCluster)) then s
    else { s with
      entries := s.entries.eraseP fun e => decide (e.firstCluster = f.firstCluster)
      files := update s.files i (if busy then some { f with unlinkPending := true } else none) }

def reclaim (s : State) (i : ℕ) : State :=
  if (s.files i).any File.unlinkPending then { s with files := update s.files i none } else s

inductive Op where
  | create (name : Name) (env : Env)
  | delete (i : ℕ) (busy : Bool)
  | reclaim (i : ℕ)

def step (s : State) : Op → State
  | .create name env => createFile s name env
  | .delete i busy => deleteFile s i busy
  | .reclaim i => reclaim s i

/-- Names without a null byte that differ from all before, and a free slot and
cluster. -/
def Ready (s : State) : Op → Prop
  | .create name env => 0 ∉ name ∧ name.map lower ∉ s.used.map (List.map lower) ∧
      (∀ i ∈ env.slot, s.files i = none) ∧
      ∀ c ∈ env.cluster, (∀ e ∈ s.entries, e.firstCluster ≠ c) ∧
        ∀ i f, s.files i = some f → f.firstCluster ≠ c
  | _ => True

/-- The short form of a new name is no alias of a live entry. -/
def Unaliased (s : State) : Op → Prop
  | .create name _ => fits83Name name = true → ∀ e ∈ s.entries, fits83Name e.created = false →
      e.short ≠ encode83Name name
  | _ => True

structure Inv (s : State) : Prop where
  shorts : (s.entries.map Entry.short).Nodup
  clusters : (s.entries.map Entry.firstCluster).Nodup
  known : ∀ e ∈ s.entries, e.created ∈ s.used
  names : ∀ e ∈ s.entries, fits83Name e.created = true → e.short = encode83Name e.created
  owner : ∀ i f, s.files i = some f → ∀ e ∈ s.entries, e.firstCluster = f.firstCluster →
    e.created = f.name

def start : State := ⟨[],fun _ => none,[]⟩

lemma start_inv : Inv start := ⟨.nil,.nil,nofun,nofun,nofun⟩

lemma encode_injective {a b : Name} (ha : fits83Name a = true) (hb : fits83Name b = true)
    (h : encode83Name a = encode83Name b) : a.map lower = b.map lower := by
  rw [fits83Name,Bool.and_eq_true,decide_eq_true_eq,decide_eq_true_eq] at ha hb
  rw [← ha.2,← hb.2,h]

section
variable {s : State} (h : Inv s)
include h

lemma Inv.shortName_new {name short : Name} {lfnOk : Bool} (hs : shortName s name lfnOk = some short)
    (hu : ∀ env, Unaliased s (.create name env))
    (hn : name.map lower ∉ s.used.map (List.map lower)) :
    (∀ e ∈ s.entries, e.short ≠ short) ∧ (fits83Name name = true → short = encode83Name name) := by
  rw [shortName] at hs
  split_ifs at hs with hfit
  · obtain rfl := Option.some.inj hs
    refine ⟨fun e he heq => ?_,fun _ => rfl⟩
    cases hfe : fits83Name e.created with
    | true =>
      rw [h.names e he hfe] at heq
      exact hn (mem_map.mpr ⟨_,h.known e he,encode_injective hfe hfit heq⟩)
    | false => exact hu ⟨none,none,false,false⟩ hfit e he hfe heq
  · obtain ⟨halias,-⟩ := Option.filter_eq_some_iff.mp hs
    have htest := find?_some halias
    refine ⟨fun e he heq => ?_,fun hf => absurd hf hfit⟩
    simp only [Bool.not_eq_true',any_eq_false,decide_eq_true_eq] at htest
    exact htest e he heq

lemma Inv.keep {t : State} (he : t.entries.Sublist s.entries) (hu : s.used ⊆ t.used)
    (hf : ∀ i f, t.files i = some f → ∃ f', s.files i = some f' ∧ f'.name = f.name ∧
      f'.firstCluster = f.firstCluster) : Inv t := by
  refine ⟨h.shorts.sublist (he.map _),h.clusters.sublist (he.map _),?_,?_,?_⟩
  · exact fun e hm => hu (h.known e (he.subset hm))
  · exact fun e hm => h.names e (he.subset hm)
  · intro i f hi e hm hc
    obtain ⟨f',hi',hname,hcl⟩ := hf i f hi
    rw [← hname]
    exact h.owner i f' hi' e (he.subset hm) (hc.trans hcl.symm)

lemma Inv.delete (i : ℕ) (busy : Bool) : Inv (deleteFile s i busy) := by
  rw [deleteFile]
  split
  · exact h
  next f hi =>
  by_cases hno : f.unlinkPending ∨ ¬s.entries.any (fun e => decide (e.firstCluster = f.firstCluster))
  · rw [if_pos hno]
    exact h
  rw [if_neg hno]
  refine h.keep eraseP_sublist (List.Subset.refl _) fun j g hj => ?_
  dsimp only at hj
  rw [update_apply] at hj
  split_ifs at hj with hji
  · cases hj
    exact ⟨f,hji ▸ hi,rfl,rfl⟩
  · exact ⟨g,hj,rfl,rfl⟩

lemma Inv.reclaim (i : ℕ) : Inv (reclaim s i) := by
  rw [Root.reclaim]
  split_ifs
  · refine h.keep (List.Sublist.refl _) (List.Subset.refl _) fun j g hj => ?_
    dsimp only at hj
    rw [update_apply] at hj
    split_ifs at hj
    exact ⟨g,hj,rfl,rfl⟩
  · exact h

lemma Inv.add {e : Entry} (i : ℕ) (hshort : ∀ e' ∈ s.entries, e'.short ≠ e.short)
    (hcl : ∀ e' ∈ s.entries, e'.firstCluster ≠ e.firstCluster)
    (hfc : ∀ j g, s.files j = some g → g.firstCluster ≠ e.firstCluster) (hu : e.created ∈ s.used)
    (henc : fits83Name e.created = true → e.short = encode83Name e.created) :
    Inv { s with entries := addEntry s.entries e
                 files := update s.files i (some ⟨e.created,e.firstCluster,false⟩)} := by
  have hsub : ∀ x ∈ addEntry s.entries e, x = e ∨ x ∈ s.entries := by
    intro x hx
    rw [addEntry] at hx
    split_ifs at hx
    · exact .inr hx
    · exact mem_cons.mp hx
  have hnodup : ∀ {α : Type} (p : Entry → α), (s.entries.map p).Nodup →
      (∀ e' ∈ s.entries, p e' ≠ p e) → ((addEntry s.entries e).map p).Nodup := by
    intro α p hp hne
    rw [addEntry]
    split_ifs
    · exact hp
    refine nodup_cons.mpr ⟨fun hm => ?_,hp⟩
    obtain ⟨e',he',heq⟩ := mem_map.mp hm
    exact hne e' he' heq
  refine ⟨hnodup _ h.shorts hshort,hnodup _ h.clusters hcl,fun x hx => ?_,fun x hx => ?_,
    fun j g hj x hx hc => ?_⟩
  · rcases hsub x hx with rfl | hx
    · exact hu
    · exact h.known x hx
  · rcases hsub x hx with rfl | hx
    · exact henc
    · exact h.names x hx
  · dsimp only at hj
    rw [update_apply] at hj
    split_ifs at hj
    · cases hj
      rcases hsub x hx with rfl | hx
      · rfl
      · exact absurd hc (hcl x hx)
    · rcases hsub x hx with rfl | hx
      · exact absurd hc.symm (hfc j g hj)
      · exact h.owner j g hj x hx hc

lemma Inv.create {name : Name} {env : Env} (hr : Ready s (.create name env))
    (hu : ∀ env, Unaliased s (.create name env)) : Inv (createFile s name env) := by
  obtain ⟨-,hnew,hslot,hcluster⟩ := hr
  have hused : Inv {s with used := name::s.used} :=
    h.keep (List.Sublist.refl _) (subset_cons_self _ _) fun i f hf => ⟨f,hf,rfl,rfl⟩
  simp only [createFile]
  split_ifs
  · exact hused
  split
  · next i c short hi hc hs hk =>
    obtain ⟨hshort,henc⟩ := h.shortName_new hs hu hnew
    obtain ⟨hcl,hfc⟩ := hcluster c hc
    exact hused.add (e := ⟨short,c,name⟩) i hshort hcl hfc mem_cons_self henc
  · exact hused

end

def Careful : State → Op → State → Prop := Guarded (fun s op => Ready s op ∧ Unaliased s op) step

def granted (slot cluster : ℕ) : Env := ⟨some slot,some cluster,true,true⟩

end MoQiOS.Fat32.Root
