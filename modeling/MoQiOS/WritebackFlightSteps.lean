import MoQiOS.WritebackFlights

/-!
# What the parts of a writeback do

The invariant of the cache with device writes under way is kept when a copy
departs, when the device answers, when a task takes the lock again and when an
extent is stored in its own slot or a free one.
-/

namespace MoQiOS.WritebackFlights
open Writeback Runs Function List Option

structure Alike (s t : Live) : Prop where
  used : t.cache.inUseBm = s.cache.inUseBm
  file : ∀ i, (t.cache.buffers i).file = (s.cache.buffers i).file
  cell : ∀ i k, t.cell i k = s.cell i k

variable {s t : Live} {i k task : ℕ} {x : Cell} {f : Flight} {r : Request} {file : File}

lemma Alike.holds (h : Alike s t) : t.Holds i file k x ↔ s.Holds i file k x := by
  constructor
  · rintro ⟨hlt,hused,hfile,hcell⟩
    exact ⟨hlt,h.used ▸ hused,(h.file i) ▸ hfile,(h.cell i k) ▸ hcell⟩
  · rintro ⟨hlt,hused,hfile,hcell⟩
    exact ⟨hlt,h.used.symm ▸ hused,(h.file i).trans hfile,(h.cell i k).trans hcell⟩

variable {j : ℕ}

lemma Alike.apart (ha : Alike s t) (h : Sound s) {i k : ℕ} {x y : Cell}
    (hx : t.Holds i file k x) (hy : t.Holds j file k y) : i = j :=
  h.apart i j file k x y (ha.holds.mp hx) (ha.holds.mp hy)

lemma Alike.kept (ha : Alike s t) (h : Sound s) (hlog : ∀ e ∈ s.log, e ∈ t.log)
    (hx : s.accepted file k = some x) :
    (∃ i, t.Holds i file k x) ∨ ∃ e ∈ t.log, e.copy.file = file ∧ e.cell k = some x := by
  rcases h.kept file k x hx with ⟨j,hj⟩ | ⟨e,he,hfile⟩
  · exact .inl ⟨j,ha.holds.mpr hj⟩
  · exact .inr ⟨e,hlog e he,hfile⟩

lemma setDirty_buffers (c : State) (i : ℕ) (dirty : Bool) (j : ℕ) :
    (c.setDirty i dirty).buffers j =
      {c.buffers j with dirty := if j = i then dirty else (c.buffers j).dirty} := by
  change update c.buffers i _ j = _
  by_cases hj : j = i
  · subst hj
    rw [update_self,if_pos rfl]
  · rw [update_of_ne hj,if_neg hj]

lemma setDirty_alike (s : Live) (i : ℕ) (dirty : Bool) (flights : ℕ → Option Flight) :
    Alike s {s with cache := s.cache.setDirty i dirty, flights := flights} := by
  constructor
  · rfl
  · intro j
    change ((s.cache.setDirty i dirty).buffers j).file = _
    rw [setDirty_buffers]
  · intro j k
    change content ((s.cache.setDirty i dirty).buffers j) (s.tags j) k = _
    rw [setDirty_buffers]
    rfl

lemma flights_update {flights : ℕ → Option Flight} {t : ℕ} {v : Option Flight}
    (h : update flights task v t = some f) :
    (t = task ∧ v = some f) ∨ (t ≠ task ∧ flights t = some f) := by
  by_cases ht : t = task
  · subst ht
    rw [update_self] at h
    exact .inl ⟨rfl,h⟩
  · rw [update_of_ne ht] at h
    exact .inr ⟨ht,h⟩

lemma Sound.depart (h : Sound s) (request : Option Request)
    (ht : task < s.tasks) (hidle : s.flights task = none) (hi : i < bufferCount)
    (hused : s.cache.inUseBm i = true) (hg : Grounded s i) : Sound (depart s task i request) := by
  have ha : Alike s (WritebackFlights.depart s task i request) := setDirty_alike s i false _
  have hd : ∀ j, j ≠ i → ((s.cache.setDirty i false).buffers j).dirty = (s.cache.buffers j).dirty := by
    intro j hj
    rw [setDirty_buffers,if_neg hj]
  -- a flight is the new one or an old one of another slot
  have hf : ∀ t f, (WritebackFlights.depart s task i request).flights t = some f →
      (t = task ∧ f = ⟨i,s.cache.buffers i,s.tags i,request,none⟩) ∨
      (t ≠ task ∧ s.flights t = some f ∧ f.slot ≠ i) := by
    intro t f hf
    rcases flights_update hf with ⟨rfl,hv⟩ | ⟨htt,hf'⟩
    · exact .inl ⟨rfl,(some.inj hv).symm⟩
    · exact .inr ⟨htt,hf',hg t (h.bounded t f hf') f hf'⟩
  have hheld : ∀ k x, s.cell i k = some x → s.Holds i (s.cache.buffers i).file k x :=
    fun k x hx => ⟨hi,hused,rfl,hx⟩
  constructor
  · intro t f hft
    rcases hf t f hft with ⟨rfl,-⟩ | ⟨-,hft,-⟩
    · exact ht
    · exact h.bounded t f hft
  · intro t t' f f' hft hft' hslot
    rcases hf t f hft with ⟨rfl,rfl⟩ | ⟨-,hft,hne⟩ <;> rcases hf t' f' hft' with ⟨rfl,rfl⟩ | ⟨-,hft',hne'⟩
    · rfl
    · exact absurd hslot.symm hne'
    · exact absurd hslot hne
    · exact h.single t t' f f' hft hft' hslot
  · intro t f hft
    rw [ha.used,ha.file]
    rcases hf t f hft with ⟨-,rfl⟩ | ⟨-,hft,-⟩
    · exact ⟨hi,hused,rfl⟩
    · exact h.slot t f hft
  · intro t f hft hdirty k
    rw [ha.cell]
    rcases hf t f hft with ⟨-,rfl⟩ | ⟨-,hft,hne⟩
    · rfl
    · exact h.same t f hft ((hd f.slot hne).symm.trans hdirty) k
  · intro t f hft k x hx
    rw [ha.cell]
    rcases hf t f hft with ⟨-,rfl⟩ | ⟨-,hft,-⟩
    · exact ⟨x,hx,le_refl _⟩
    · exact h.newer t f hft k x hx
  · intro j hj hju hdirty
    by_cases hji : j = i
    · exact ⟨task,_,update_self _ _ _,hji.symm⟩
    rw [ha.used] at hju
    obtain ⟨t,f,hft,hslot⟩ := h.idle j hj hju ((hd j hji).symm.trans hdirty)
    have htt : t ≠ task := by
      rintro rfl
      rw [hidle] at hft
      cases hft
    exact ⟨t,f,(update_of_ne htt _ _).trans hft,hslot⟩
  · exact fun j j' file k x y hx hy => ha.apart h hx hy
  · exact fun file k x hx => ha.kept h (fun _ he => he) hx
  · exact fun j file k x hx => h.recent j file k x (ha.holds.mp hx)
  · exact h.logged
  · exact fun e he j k x y hx hy => h.behind e he j k x y hx (ha.holds.mp hy)
  · intro e he t f hft hres
    rcases hf t f hft with ⟨-,rfl⟩ | ⟨-,hft,-⟩
    · intro hfile k x y hx hy
      exact h.behind e he i k x y hx (hfile ▸ hheld k y hy)
    · exact h.pending e he t f hft hres
  · intro t f hft hres
    rcases hf t f hft with ⟨-,rfl⟩ | ⟨-,hft,-⟩
    · cases hres
    · exact h.arrived t f hft hres
  · exact h.ordered

lemma Sound.reach (h : Sound s) (hft : s.flights task = some f)
    (hres : f.result = none) (ok : Bool) : Sound (reach s task f ok) := by
  have ha : Alike s (WritebackFlights.reach s task f ok) := by cases ok <;> exact ⟨rfl,fun _ => rfl,fun _ _ => rfl⟩
  have hd : ∀ j, ((WritebackFlights.reach s task f ok).cache.buffers j).dirty = (s.cache.buffers j).dirty := by
    cases ok <;> exact fun _ => rfl
  -- every flight was there before, but for its result
  have hf : ∀ t g, (WritebackFlights.reach s task f ok).flights t = some g →
      ∃ g', s.flights t = some g' ∧ g = {g' with result := g.result} ∧
        ((t = task ∧ g' = f ∧ g.result = some ok) ∨ (t ≠ task ∧ g.result = g'.result)) := by
    intro t g hg
    rcases flights_update hg with ⟨rfl,hv⟩ | ⟨htt,hg'⟩
    · obtain rfl := some.inj hv
      exact ⟨f,hft,rfl,.inl ⟨rfl,rfl,rfl⟩⟩
    · exact ⟨g,hg',rfl,.inr ⟨htt,rfl⟩⟩
  have hlog : ∀ e ∈ (WritebackFlights.reach s task f ok).log, e ∈ s.log ∨ (ok = true ∧ e = ⟨f.copy,f.tags⟩) := by
    intro e he
    cases ok with
    | false => exact .inl he
    | true =>
      rcases mem_append.mp he with he | he
      · exact .inl he
      · exact .inr ⟨rfl,mem_singleton.mp he⟩
  -- what the flight carries is under its slot
  have hunder : ∀ t g k x, s.flights t = some g → g.cell k = some x →
      ∃ y, s.Holds g.slot g.copy.file k y ∧ x.1 ≤ y.1 := by
    intro t g k x hg hx
    obtain ⟨hlt,hused,hfile⟩ := h.slot t g hg
    obtain ⟨y,hy,hxy⟩ := h.newer t g hg k x hx
    exact ⟨y,⟨hlt,hused,hfile,hy⟩,hxy⟩
  constructor
  · intro t g hg
    obtain ⟨g',hg',-⟩ := hf t g hg
    exact h.bounded t g' hg'
  · intro t t' g g' hg hg' hslot
    obtain ⟨c,hc,heq,-⟩ := hf t g hg
    obtain ⟨c',hc',heq',-⟩ := hf t' g' hg'
    rw [heq,heq'] at hslot
    exact h.single t t' c c' hc hc' hslot
  · intro t g hg
    obtain ⟨c,hc,heq,-⟩ := hf t g hg
    rw [ha.used,ha.file,heq]
    exact h.slot t c hc
  · intro t g hg hdirty k
    obtain ⟨c,hc,heq,-⟩ := hf t g hg
    rw [heq] at hdirty ⊢
    rw [hd] at hdirty
    rw [ha.cell]
    exact h.same t c hc hdirty k
  · intro t g hg k x hx
    obtain ⟨c,hc,heq,-⟩ := hf t g hg
    rw [heq] at hx ⊢
    rw [ha.cell]
    exact h.newer t c hc k x hx
  · intro j hj hju hdirty
    rw [ha.used] at hju
    rw [hd] at hdirty
    obtain ⟨t,g,hg,hslot⟩ := h.idle j hj hju hdirty
    by_cases htt : t = task
    · subst htt
      obtain rfl := mem_unique hft hg
      exact ⟨t,_,update_self _ _ _,hslot⟩
    · exact ⟨t,g,(update_of_ne htt _ _).trans hg,hslot⟩
  · exact fun j j' file k x y hx hy => ha.apart h hx hy
  · intro file k x hx
    refine ha.kept h (fun e he => ?_) hx
    cases ok with
    | false => exact he
    | true => exact mem_append_left _ he
  · exact fun j file k x hx => h.recent j file k x (ha.holds.mp hx)
  · intro e he k x hx
    rcases hlog e he with he | ⟨-,rfl⟩
    · exact h.logged e he k x hx
    · obtain ⟨y,hy,hxy⟩ := hunder task f k x hft hx
      exact lt_of_le_of_lt hxy (h.recent _ _ k y hy)
  · intro e he j k x y hx hy
    have hy := ha.holds.mp hy
    rcases hlog e he with he | ⟨-,rfl⟩
    · exact h.behind e he j k x y hx hy
    obtain ⟨z,hz,hxz⟩ := hunder task f k x hft hx
    obtain rfl := h.apart j f.slot f.copy.file k y z hy hz
    obtain rfl := mem_unique hy.cell hz.cell
    exact hxz
  · intro e he t g hg hnone
    obtain ⟨c,hc,heq,(⟨-,-,hok⟩ | ⟨htt,hr⟩)⟩ := hf t g hg
    · rw [hnone] at hok
      cases hok
    rw [heq]
    rcases hlog e he with he | ⟨-,rfl⟩
    · exact h.pending e he t c hc (hr ▸ hnone)
    intro hfile k x y hx hy
    obtain ⟨z,hz,-⟩ := hunder task f k x hft hx
    obtain ⟨w,hw,-⟩ := hunder t c k y hc hy
    have hslot := h.apart f.slot c.slot f.copy.file k z w hz ((show f.copy.file = c.copy.file from hfile) ▸ hw)
    exact absurd (h.single task t f c hft hc hslot).symm htt
  · intro t g hg htrue
    obtain ⟨c,hc,heq,(⟨-,rfl,hok⟩ | ⟨-,hr⟩)⟩ := hf t g hg
    · obtain rfl := mem_unique hok htrue
      rw [heq]
      exact mem_append_right _ (mem_singleton.mpr rfl)
    have hin := h.arrived t c hc (hr ▸ htrue)
    rw [heq]
    cases ok with
    | false => exact hin
    | true => exact mem_append_left _ hin
  · rcases ok with _ | _
    · exact h.ordered
    refine pairwise_append.mpr ⟨h.ordered,pairwise_singleton _ _,?_⟩
    intro e he e' he'
    obtain rfl := mem_singleton.mp he'
    exact h.pending e he task f hft hres

/-- A task is done with a device write: its slot is dirty or given back, and
holds what it held but for what is on the disk. -/
lemma Sound.retire (h : Sound s) (hft : s.flights task = some f) {c : State}
    (hother : ∀ j, j ≠ f.slot → c.buffers j = s.cache.buffers j ∧ c.inUseBm j = s.cache.inUseBm j)
    (hdirty : c.inUseBm f.slot = true → (c.buffers f.slot).dirty = true) {t : Live}
    (heq : t = {s with cache := c, flights := update s.flights task none})
    (hold : ∀ {file k x}, t.Holds f.slot file k x → s.Holds f.slot file k x)
    (hkept : ∀ {file k x}, s.Holds f.slot file k x → t.Holds f.slot file k x ∨
      ∃ e ∈ s.log, e.copy.file = file ∧ e.cell k = some x) : Sound t := by
  have hf : ∀ t g, update s.flights task none t = some g →
      s.flights t = some g ∧ g.slot ≠ f.slot := by
    intro t g hg
    rcases flights_update hg with ⟨-,hv⟩ | ⟨htt,hg⟩
    · cases hv
    · exact ⟨hg,fun hs => htt (h.single t task g f hg hft hs)⟩
  have hcell : ∀ j, j ≠ f.slot → ∀ k, content (c.buffers j) (s.tags j) k = s.cell j k := by
    intro j hj k
    rw [(hother j hj).1]
    rfl
  have hholds : ∀ {j file k x}, t.Holds j file k x → s.Holds j file k x := by
    intro j file k x hx
    subst heq
    by_cases hj : j = f.slot
    · subst hj
      exact hold hx
    · obtain ⟨hb,hu⟩ := hother j hj
      exact ⟨hx.lt,hu ▸ hx.used,hb ▸ hx.file,(hcell j hj k).symm.trans hx.cell⟩
  subst heq
  constructor
  · exact fun t g hg => h.bounded t g (hf t g hg).1
  · exact fun t t' g g' hg hg' => h.single t t' g g' (hf t g hg).1 (hf t' g' hg').1
  · intro t g hg
    obtain ⟨hg,hne⟩ := hf t g hg
    dsimp only
    rw [(hother _ hne).1,(hother _ hne).2]
    exact h.slot t g hg
  · intro t g hg hclean k
    obtain ⟨hg,hne⟩ := hf t g hg
    exact (hcell _ hne k).trans (h.same t g hg ((hother _ hne).1 ▸ hclean) k)
  · intro t g hg k x hx
    obtain ⟨hg,hne⟩ := hf t g hg
    obtain ⟨y,hy,hxy⟩ := h.newer t g hg k x hx
    exact ⟨y,(hcell _ hne k).trans hy,hxy⟩
  · intro j hj hju hclean
    have hjs : j ≠ f.slot := by
      rintro rfl
      exact absurd ((hdirty hju).symm.trans hclean) (by decide)
    obtain ⟨hb,hu⟩ := hother j hjs
    obtain ⟨t,g,hg,hs⟩ := h.idle j hj (hu ▸ hju) (hb ▸ hclean)
    have htt : t ≠ task := by
      rintro rfl
      obtain rfl := mem_unique hft hg
      exact hjs hs.symm
    exact ⟨t,g,(update_of_ne htt _ _).trans hg,hs⟩
  · exact fun j j' file k x y hx hy => h.apart j j' file k x y (hholds hx) (hholds hy)
  · intro file k x hx
    rcases h.kept file k x hx with ⟨j,hj⟩ | hlog
    · by_cases hjs : j = f.slot
      · subst hjs
        exact (hkept hj).imp_left fun hj => ⟨f.slot,hj⟩
      obtain ⟨hb,hu⟩ := hother j hjs
      exact .inl ⟨j,hj.lt,hu.trans hj.used,(congrArg DirtyBuffer.file hb).trans hj.file,
        (hcell j hjs k).trans hj.cell⟩
    · exact .inr hlog
  · exact fun j file k x hx => h.recent j file k x (hholds hx)
  · exact h.logged
  · exact fun e he j k x y hx hy => h.behind e he j k x y hx (hholds hy)
  · exact fun e he t g hg => h.pending e he t g (hf t g hg).1
  · exact fun t g hg => h.arrived t g (hf t g hg).1
  · exact h.ordered

lemma Sound.free (h : Sound s) (hft : s.flights task = some f)
    (hres : f.result = some true) (hclean : (s.cache.buffers f.slot).dirty = false) :
    Sound (release {s with flights := update s.flights task none} f.slot) := by
  have hunused : update s.cache.inUseBm f.slot false f.slot ≠ true := by
    rw [update_self]
    decide
  refine h.retire hft (c := {s.cache with inUseBm := update s.cache.inUseBm f.slot false})
    (fun j hj => ⟨rfl,update_of_ne hj _ _⟩) (fun hu => absurd hu hunused) rfl
    (fun hx => absurd hx.used hunused) fun {file k x} hx => .inr ?_
  -- the bytes of the slot went to the disk
  refine ⟨_,h.arrived task f hft hres,?_,?_⟩
  · exact (h.slot task f hft).2.2.symm.trans hx.file
  · exact (h.same task f hft hclean k).symm.trans hx.cell

structure Stored (s t : Live) (i : ℕ) (r : Request) : Prop where
  lt : i < bufferCount
  other : ∀ j, j ≠ i → t.cache.buffers j = s.cache.buffers j ∧ t.tags j = s.tags j ∧
    t.cache.inUseBm j = s.cache.inUseBm j
  used : t.cache.inUseBm i = true
  dirty : (t.cache.buffers i).dirty = true
  file : (t.cache.buffers i).file = r.file
  key : s.cache.inUseBm i = true →
    (s.cache.buffers i).file = r.file ∧ (s.cache.buffers i).byteOffset = r.byteOffset
  cell : ∀ k, t.cell i k = if r.covers k then r.cell s.clock k
    else if s.cache.inUseBm i = true then s.cell i k else none
  flights : t.flights = s.flights
  tasks : t.tasks = s.tasks
  log : t.log = s.log
  clock : t.clock = s.clock+1
  accepted : t.accepted = update s.accepted r.file
    fun k => if r.covers k then r.cell s.clock k else s.accepted r.file k

lemma Request.cell_covers {n : ℕ} (h : r.covers k) : ∃ v, r.cell n k = some (n,v) := by
  have hlt : k-r.byteOffset < r.data.length := by
    have := h.1
    have := h.2
    omega
  exact ⟨r.data[k-r.byteOffset],by rw [cell,getElem?_eq_getElem hlt]; rfl⟩

lemma Stored.cell_cases (h : Stored s t i r) (hx : t.cell i k = some x) :
    (r.covers k ∧ r.cell s.clock k = some x ∧ x.1 = s.clock) ∨
    (¬r.covers k ∧ s.Holds i r.file k x) := by
  rw [h.cell] at hx
  by_cases hc : r.covers k
  · rw [if_pos hc] at hx
    obtain ⟨v,hv⟩ := Request.cell_covers (n := s.clock) hc
    have heq := mem_unique hv hx
    exact .inl ⟨hc,hx,heq ▸ rfl⟩
  rw [if_neg hc] at hx
  split at hx
  · next hu => exact .inr ⟨hc,h.lt,hu,(h.key hu).1,hx⟩
  · cases hx

lemma Stored.cell_other (h : Stored s t i r) (hj : j ≠ i) (k : ℕ) : t.cell j k = s.cell j k := by
  obtain ⟨hb,ht,-⟩ := h.other j hj
  rw [Live.cell,Live.cell,hb,ht]

lemma Stored.holds_other (h : Stored s t i r) (hj : j ≠ i) : t.Holds j file k x ↔ s.Holds j file k x := by
  obtain ⟨hb,-,hu⟩ := h.other j hj
  have hc := h.cell_other hj k
  constructor
  · exact fun hx => ⟨hx.lt,hu ▸ hx.used,hb ▸ hx.file,hc ▸ hx.cell⟩
  · exact fun hx => ⟨hx.lt,hu.trans hx.used,by rw [hb]; exact hx.file,hc.trans hx.cell⟩

lemma Apart.not_held (h : Apart s i r)
    (hj : j ≠ i) (hc : r.covers k) : ¬s.Holds j r.file k x := by
  intro hx
  have hcell := hx.cell
  unfold Live.cell content at hcell
  split at hcell
  · next hle =>
    obtain ⟨v,hv,-⟩ := map_eq_some_iff.mp hcell
    obtain ⟨hlt,-⟩ := List.getElem?_eq_some_iff.mp hv
    have := hc.1
    have := hc.2
    rcases h j hx.lt hj hx.used hx.file with h | h <;> omega
  · cases hcell

lemma Sound.store (h : Sound s) (hst : Stored s t i r) (hap : Apart s i r) : Sound t := by
  have holder : ∀ j file k x, t.Holds j file k x →
      (j = i ∧ file = r.file ∧ r.covers k ∧ x.1 = s.clock) ∨ s.Holds j file k x := by
    intro j file k x hx
    by_cases hj : j = i
    · subst hj
      have hfile : file = r.file := hx.file.symm.trans hst.file
      rcases hst.cell_cases hx.cell with ⟨hc,-,hn⟩ | ⟨-,hold⟩
      · exact .inl ⟨rfl,hfile,hc,hn⟩
      · exact .inr (hfile ▸ hold)
    · exact .inr ((hst.holds_other hj).mp hx)
  have hinuse : ∀ j, s.cache.inUseBm j = true → t.cache.inUseBm j = true := by
    intro j hj
    by_cases hji : j = i
    · rw [hji,hst.used]
    · rw [(hst.other j hji).2.2,hj]
  have hclean : ∀ j, t.cache.inUseBm j = true → (t.cache.buffers j).dirty = false →
      j ≠ i ∧ s.cache.inUseBm j = true ∧ (s.cache.buffers j).dirty = false := by
    intro j hju hdirty
    have hji : j ≠ i := by
      rintro rfl
      exact absurd (hst.dirty.symm.trans hdirty) (by decide)
    obtain ⟨hb,-,hu⟩ := hst.other j hji
    exact ⟨hji,hu ▸ hju,hb ▸ hdirty⟩
  constructor
  · rw [hst.flights,hst.tasks]
    exact h.bounded
  · rw [hst.flights]
    exact h.single
  · intro u f hf
    rw [hst.flights] at hf
    obtain ⟨h1,h2,h3⟩ := h.slot u f hf
    refine ⟨h1,hinuse _ h2,?_⟩
    by_cases hfi : f.slot = i
    · rw [hfi] at h2 h3 ⊢
      rw [hst.file,← h3,(hst.key h2).1]
    · rw [(hst.other _ hfi).1,h3]
  · intro u f hf hdirty k
    rw [hst.flights] at hf
    obtain ⟨hne,-,hd⟩ := hclean f.slot (hinuse _ (h.slot u f hf).2.1) hdirty
    rw [hst.cell_other hne]
    exact h.same u f hf hd k
  · intro u f hf k x hx
    rw [hst.flights] at hf
    obtain ⟨y,hy,hxy⟩ := h.newer u f hf k x hx
    obtain ⟨h1,h2,h3⟩ := h.slot u f hf
    by_cases hfi : f.slot = i
    · by_cases hc : r.covers k
      · obtain ⟨v,hv⟩ := Request.cell_covers (n := s.clock) hc
        refine ⟨_,by rw [hfi,hst.cell,if_pos hc,hv],?_⟩
        have := h.recent f.slot _ k y ⟨h1,h2,rfl,hy⟩
        exact le_of_lt (lt_of_le_of_lt hxy this)
      · refine ⟨y,?_,hxy⟩
        rw [hfi] at h2 hy ⊢
        rw [hst.cell,if_neg hc,if_pos h2,hy]
    · exact ⟨y,(hst.cell_other hfi k).trans hy,hxy⟩
  · intro j hj hju hdirty
    obtain ⟨-,hju,hd⟩ := hclean j hju hdirty
    rw [hst.flights]
    exact h.idle j hj hju hd
  · intro j j' file k x y hx hy
    -- the slot that holds a new byte is the only one
    have hsole : ∀ {j y}, t.Holds j file k y → r.covers k → file = r.file → j = i := by
      rintro j y hy hc rfl
      by_contra hj
      exact hap.not_held hj hc ((hst.holds_other hj).mp hy)
    rcases holder j file k x hx with ⟨hj,hfile,hc,-⟩ | hx'
    · rw [hj,hsole hy hc hfile]
    rcases holder j' file k y hy with ⟨hj',hfile,hc,-⟩ | hy'
    · rw [hj',hsole hx hc hfile]
    · exact h.apart j j' file k x y hx' hy'
  · intro file k x hx
    rw [hst.accepted] at hx
    -- an old byte that the extent does not cover stays where it is
    have hstay : s.accepted file k = some x → ¬(file = r.file ∧ r.covers k) →
        (∃ j, t.Holds j file k x) ∨ ∃ e ∈ t.log, e.copy.file = file ∧ e.cell k = some x := by
      intro hx hnot
      rw [hst.log]
      rcases h.kept file k x hx with ⟨j,hj⟩ | hlog
      · refine .inl ⟨j,?_⟩
        by_cases hji : j = i
        · subst hji
          have hfile : r.file = file := (hst.key hj.used).1.symm.trans hj.file
          have hc : ¬r.covers k := fun hc => hnot ⟨hfile.symm,hc⟩
          exact ⟨hj.lt,hst.used,hst.file.trans hfile,by rw [hst.cell,if_neg hc,if_pos hj.used,hj.cell]⟩
        · exact (hst.holds_other hji).mpr hj
      · exact .inr hlog
    by_cases hfile : file = r.file
    · subst hfile
      rw [update_self] at hx
      by_cases hc : r.covers k
      · rw [if_pos hc] at hx
        exact .inl ⟨i,hst.lt,hst.used,hst.file,by rw [hst.cell,if_pos hc,hx]⟩
      · rw [if_neg hc] at hx
        exact hstay hx fun hn => hc hn.2
    · rw [update_of_ne hfile] at hx
      exact hstay hx fun hn => hfile hn.1
  · intro j file k x hx
    rw [hst.clock]
    rcases holder j file k x hx with ⟨-,-,-,hn⟩ | hold
    · omega
    · exact Nat.lt_succ_of_lt (h.recent j file k x hold)
  · intro e he k x hx
    rw [hst.log] at he
    rw [hst.clock]
    exact Nat.lt_succ_of_lt (h.logged e he k x hx)
  · intro e he j k x y hx hy
    rw [hst.log] at he
    rcases holder j _ k y hy with ⟨-,-,-,hn⟩ | hold
    · rw [hn]
      exact le_of_lt (h.logged e he k x hx)
    · exact h.behind e he j k x y hx hold
  · rw [hst.log,hst.flights]
    exact h.pending
  · rw [hst.log,hst.flights]
    exact h.arrived
  · rw [hst.log]
    exact h.ordered

end MoQiOS.WritebackFlights
