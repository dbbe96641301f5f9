import CppGuard.LowLevelAlloc.Search

/-!
# Allocating and freeing

What `AllocWithArena` and `Free` do to the blocks of an arena. Pages are mapped at most once for a
request, and only if no free block is large enough.
-/
namespace CppGuard

namespace Memory

variable {σ : Type} {platform : Platform σ} {m m' m'' : Memory σ} {arena a n p s x : Nat}
  {r size : Nat} {free busy nodes pre post : List Nat} {region : Set Nat}

/-- The memory that the system does not hand out. -/
def reserved (platform : Platform σ) (m : Memory σ) : Set Nat :=
  extent (platform.storage, sizeofArena) ∪ covered m.runs

theorem FreshPages.disjoint (h : m.FreshPages platform p size) :
    Disjoint (extent (p, size)) (m.reserved platform) := by
  refine Set.disjoint_left.mpr fun x hx hreserved => ?_
  rw [mem_extent] at hx
  obtain hstorage | ⟨run, hrun, hmem⟩ := hreserved
  · rw [mem_extent] at hstorage
    have := h.storage
    simp only at hx hstorage
    omega
  · rw [mem_extent] at hmem
    have := h.runs run hrun
    simp only at hx
    omega

/-- What an operation of an arena leaves as it was. -/
structure Kept (m m' : Memory σ) (arena : Nat) (busy : List Nat) (region : Set Nat) : Prop where
  outside : ∀ x, x ≠ arena → x ∉ region → m'.node x = m.node x
  busy : ∀ x ∈ busy, m'.node x = m.node x
  arenas : ∀ b, b ≠ arena → m'.arena b = m.arena b

theorem Kept.refl (m : Memory σ) (arena : Nat) (busy : List Nat) (region : Set Nat) :
    Kept m m arena busy region := ⟨fun _ _ _ => rfl, fun _ _ => rfl, fun _ _ => rfl⟩

theorem Kept.trans (h : Kept m m' arena busy region) (h' : Kept m' m'' arena busy region) :
    Kept m m'' arena busy region where
  outside x hx hnot := (h'.outside x hx hnot).trans (h.outside x hx hnot)
  busy x hx := (h'.busy x hx).trans (h.busy x hx)
  arenas b hb := (h'.arenas b hb).trans (h.arenas b hb)

theorem Frame.kept (h : Frame m m' arena nodes) (hregion : ∀ x ∈ nodes, x ∈ region)
    (hbusy : ∀ x ∈ busy, x ≠ arena ∧ x ∉ nodes) : Kept m m' arena busy region where
  outside x hx hnot := h.other x hx fun hmem => hnot (hregion x hmem)
  busy x hx := h.other x (hbusy x hx).1 (hbusy x hx).2
  arenas := h.arenas

/-- Blocks of an arena, none of which touch, with their marks, and the count of the allocated
ones. -/
structure Sound (platform : Platform σ) (m : Memory σ) (arena : Nat) (free busy : List Nat)
    (region : Set Nat) : Prop extends Heap platform m arena free busy region where
  apart : m.Apart free
  marked : ∀ x ∈ busy, (m.node x).magic = magicOf kMagicAllocated x ∧
    (m.node x).arena = some arena
  count : (m.arena arena).allocationCount = Int.bmod busy.length (2 ^ 32)
  arena_reserved : arena ∈ m.reserved platform
  region_reserved : region ⊆ m.reserved platform

/-! ## Changes that keep the blocks -/

/-- The free blocks are the same, and there are new allocated ones. -/
theorem Heap.exchange (h : Heap platform m arena free busy region) {busy' : List Nat}
    {region' : Set Nat} (hbuilt : Built platform m' arena) (hnode : m'.node arena = m.node arena)
    (hfree : ∀ x ∈ free, m'.node x = m.node x) (hbusy : ∀ x ∈ busy', 64 ≤ (m'.node x).size)
    (htiles : Tiles ((free ++ busy').map m'.tile) region') (hnot : arena ∉ region')
    (hlt : ∀ x ∈ region', x < 2 ^ 64) : Heap platform m' arena free busy' region' := by
  refine ⟨hbuilt, ?_, fun x hx => ?_, fun x hx => ?_, fun x hx => ?_, htiles, hnot, hlt⟩
  · refine h.freeList.congr (fun x hx => ?_) ?_ ?_
    · rw [hfree x hx]
      exact ⟨rfl, rfl⟩
    · rw [hnode]
    · rw [hnode]
  · rw [hfree x hx]
    exact h.unallocated x hx
  · rw [hfree x hx]
    exact h.fitting x hx
  · obtain hx | hx := List.mem_append.mp hx
    · rw [hfree x hx]
      exact h.size_le x (List.mem_append_left _ hx)
    · exact hbusy x hx

theorem Heap.congr (h : Heap platform m arena free busy region)
    (hnode : m'.node arena = m.node arena) (hfree : ∀ x ∈ free, m'.node x = m.node x)
    (hbusy : ∀ x ∈ busy, (m'.node x).size = (m.node x).size)
    (harena : ∃ allocationCount random,
      m'.arena arena = { m.arena arena with allocationCount, random }) :
    Heap platform m' arena free busy region := by
  have hbuilt := h.toBuilt.congr (congrArg AllocList.size hnode) harena
  have hsize : ∀ x ∈ free ++ busy, m'.tile x = m.tile x := by
    intro x hx
    obtain hx | hx := List.mem_append.mp hx
    · rw [tile, hfree x hx, tile]
    · rw [tile, hbusy x hx, tile]
  refine h.exchange hbuilt hnode hfree (fun x hx => ?_) ?_ h.arena_notMem h.region_lt
  · rw [hbusy x hx]
    exact h.size_le x (List.mem_append_right _ hx)
  · rw [List.map_congr_left hsize]
    exact h.tiles

theorem Heap.perm (h : Heap platform m arena free busy region) {busy' : List Nat}
    (hperm : busy.Perm busy') : Heap platform m arena free busy' region := by
  refine h.exchange h.toBuilt rfl (fun _ _ => rfl) (fun x hx => ?_)
    (h.tiles.perm ((hperm.append_left free).map m.tile)) h.arena_notMem h.region_lt
  exact h.size_le x (List.mem_append_right _ (hperm.mem_iff.mpr hx))

theorem Sound.perm (h : Sound platform m arena free busy region) {busy' : List Nat}
    (hperm : busy.Perm busy') : Sound platform m arena free busy' region where
  toHeap := h.toHeap.perm hperm
  apart := h.apart
  marked x hx := h.marked x (hperm.mem_iff.mpr hx)
  count := hperm.length_eq ▸ h.count
  arena_reserved := h.arena_reserved
  region_reserved := h.region_reserved

/-- A block is taken from the free list. -/
theorem Heap.delete (h : Heap platform m arena (pre ++ s :: post) busy region) :
    ∃ m', m.delete platform arena s = some m' ∧
      Heap platform m' arena (pre ++ post) (s :: busy) region ∧
      Frame m m' arena (pre ++ s :: post) ∧ ∀ x, (m'.node x).header = (m.node x).header := by
  obtain ⟨m', hdelete, hfree, hrelinked⟩ := h.freeList.delete platform
  have hframe := hrelinked.frame
  have hsub : ∀ x ∈ pre ++ post, x ∈ pre ++ s :: post := fun _ hx => mem_middle_of_mem hx
  have hperm : (pre ++ post ++ s :: busy).Perm (pre ++ s :: post ++ busy) :=
    List.perm_middle.trans (perm_block pre post busy s).symm
  have hsize : ∀ x, (m'.node x).size = (m.node x).size :=
    fun x => size_eq_of_header (hrelinked.header x)
  refine ⟨m', hdelete, ⟨hframe.built h.toBuilt, hfree, fun x hx => ?_, fun x hx => ?_,
    fun x hx => ?_, ?_, h.arena_notMem, h.region_lt⟩, hframe, hrelinked.header⟩
  · rw [magic_eq_of_header (hrelinked.header x), parent_eq_of_header (hrelinked.header x)]
    exact h.unallocated x (hsub x hx)
  · rw [hsize, hrelinked.levels x (h.ne_arena (List.mem_append_left _ (hsub x hx)))]
    exact h.fitting x (hsub x hx)
  · rw [hsize]
    exact h.size_le x (hperm.mem_iff.mp hx)
  · rw [List.map_congr_left fun x _ => by rw [tile, hsize, ← tile]]
    exact h.tiles.perm (hperm.symm.map m.tile)

/-- No block begins inside of another one. -/
theorem Heap.notMem_of_inside (h : Heap platform m arena free busy region)
    (hs : s ∈ free ++ busy) (hn : n ∈ extent (m.tile s)) (hne : n ≠ s) : n ∉ free ++ busy := by
  intro hmem
  have hpos := h.size_le n hmem
  refine hne (h.eq_of_mem hmem hs (z := n) ⟨Nat.le_refl _, ?_⟩ hn)
  simp only [tile]
  omega

/-- Where a block is cut in two, there is no block. -/
theorem Heap.notMem_of_cut (h : Heap platform m arena free busy region) (hs : s ∈ free ++ busy)
    (hr : 64 ≤ r) (hsize : r + 64 ≤ (m.node s).size) :
    r + s ∈ region ∧ r + s ∉ free ++ busy := by
  have hin : r + s ∈ extent (m.tile s) := by
    rw [mem_extent, tile]
    exact ⟨by omega, by omega⟩
  exact ⟨h.tiles.mem_region (List.mem_map_of_mem hs) hin, h.notMem_of_inside hs hin (by omega)⟩

/-- The allocated block `s` is cut in two. -/
theorem Heap.split (h : Heap platform m arena free (s :: busy) region) (hr : 64 ≤ r)
    (hsize : r + 64 ≤ (m.node s).size) (hn : n = r + s)
    (hsame : ∀ x, x ≠ n → x ≠ s → m'.node x = m.node x) (hsizeS : (m'.node s).size = r)
    (hsizeN : (m'.node n).size = (m.node s).size - r) (harenas : m'.arena = m.arena) :
    Heap platform m' arena free (n :: s :: busy) region := by
  have hs : s ∈ free ++ s :: busy := by simp
  obtain ⟨hregion, hnot⟩ := h.notMem_of_cut hs hr hsize
  rw [← hn] at hregion hnot
  have hperm : (free ++ s :: busy).Perm (s :: (free ++ busy)) := List.perm_middle
  have hother : ∀ x ∈ free ++ busy, m'.node x = m.node x := by
    intro x hx
    refine hsame x ?_ ?_
    · rintro rfl
      exact hnot (hperm.mem_iff.mpr (List.mem_cons_of_mem _ hx))
    · rintro rfl
      exact (List.nodup_cons.mp (hperm.nodup_iff.mp h.nodup)).1 hx
  have harena : m'.node arena = m.node arena := by
    refine hsame arena ?_ (h.ne_arena hs).symm
    rintro rfl
    exact h.arena_notMem hregion
  refine h.exchange (h.toBuilt.congr (by rw [harena]) ⟨_, _, congrFun harenas arena⟩) harena
    (fun x hx => hother x (List.mem_append_left _ hx)) (fun x hx => ?_) ?_ h.arena_notMem
    h.region_lt
  · obtain rfl | hx := List.mem_cons.mp hx
    · omega
    · obtain rfl | hx := List.mem_cons.mp hx
      · omega
      · rw [hother x (List.mem_append_right _ hx)]
        exact h.size_le x (List.mem_append_right _ (List.mem_cons_of_mem _ hx))
  · have hperm' : (free ++ n :: s :: busy).Perm (s :: n :: (free ++ busy)) :=
      (List.perm_middle.trans (List.perm_middle.cons n)).trans (List.Perm.swap s n _)
    have htiles := h.tiles.perm (hperm.map m.tile)
    have hcut : Tiles (m'.tile s :: m'.tile n :: (free ++ busy).map m'.tile) region := by
      rw [List.map_congr_left fun x hx => by rw [tile, hother x hx, ← tile], tile, tile, hsizeS,
        hsizeN, hn, Nat.add_comm r s]
      refine Tiles.split_iff.mp ?_
      rw [Nat.add_sub_of_le (by omega)]
      exact htiles
    exact hcut.perm (hperm'.symm.map m'.tile)

/-! ## New pages -/

/-- A block outside of the region becomes an allocated one. -/
theorem Heap.add (h : Heap platform m arena free busy region) (hsize : 64 ≤ (m.node p).size)
    (hdisjoint : Disjoint (extent (m.tile p)) region) (harena : arena ∉ extent (m.tile p))
    (hlt : ∀ x ∈ extent (m.tile p), x < 2 ^ 64) :
    Heap platform m arena free (p :: busy) (extent (m.tile p) ∪ region) := by
  have hperm : (p :: (free ++ busy)).Perm (free ++ p :: busy) := List.perm_middle.symm
  refine h.exchange h.toBuilt rfl (fun _ _ => rfl) (fun x hx => ?_)
    ((h.tiles.cons hdisjoint).perm (hperm.map m.tile))
    (fun hmem => hmem.elim harena h.arena_notMem) fun x hx => hx.elim (hlt x) (h.region_lt x)
  obtain rfl | hx := List.mem_cons.mp hx
  · exact hsize
  · exact h.size_le x (List.mem_append_right _ hx)

/-- The new pages are a block of their own. -/
theorem Sound.map (h : Sound platform m arena free busy region)
    (hfresh : m.FreshPages platform p size) (hsize : 64 ≤ size) :
    ∃ m', m.mapPages platform arena p size = some m' ∧
      Heap platform m' arena free (p :: busy) (extent (p, size) ∪ region) ∧
      m'.runs = (p, size) :: m.runs ∧ m'.arena = m.arena ∧
      m'.node p = { m.node p with
        size, magic := magicOf kMagicAllocated p, arena := some arena } ∧
      ∀ x, x ≠ p → m'.node x = m.node x := by
  have hdisjoint := hfresh.disjoint
  have hp : p ∈ extent (p, size) := ⟨Nat.le_refl _, by simp only; omega⟩
  have hnot : ∀ x ∈ m.reserved platform, x ≠ p := by
    rintro x hx rfl
    exact Set.disjoint_left.mp hdisjoint hp hx
  have hblocks : ∀ x ∈ free ++ busy, x ≠ p :=
    fun x hx => hnot x (h.region_reserved (h.mem_region hx))
  set m₁ := m.modifyNode p ({ · with
    size, magic := magicOf kMagicAllocated p, arena := some arena })
  set m' : Memory σ := { m₁ with runs := (p, size) :: m.runs }
  have hself : m'.node p = { m.node p with
      size, magic := magicOf kMagicAllocated p, arena := some arena } :=
    (node_modifyNode_self _ : m₁.node p = _)
  have hsame : ∀ x, x ≠ p → m'.node x = m.node x :=
    fun x hx => (node_modifyNode_of_ne _ hx : m₁.node x = m.node x)
  have hold : Heap platform m' arena free busy region :=
    h.congr (hsame arena (hnot arena h.arena_reserved))
      (fun x hx => hsame x (hblocks x (List.mem_append_left _ hx)))
      (fun x hx => by rw [hsame x (hblocks x (List.mem_append_right _ hx))]) ⟨_, _, rfl⟩
  have htile : m'.tile p = (p, size) := by rw [tile, hself]
  have hheap := hold.add (p := p) (by rwa [hself])
    (htile ▸ hdisjoint.mono_right h.region_reserved)
    (htile ▸ fun hmem => Set.disjoint_left.mp hdisjoint hmem h.arena_reserved)
    (htile ▸ fun x hx => Nat.lt_of_lt_of_le hx.2 hfresh.le)
  exact ⟨m', if_pos hfresh, htile ▸ hheap, rfl, rfl, hself, hsame⟩

theorem reserved_cons (platform : Platform σ) (run : Nat × Nat) (h : m'.runs = run :: m.runs) :
    m.reserved platform ⊆ m'.reserved platform ∧ extent run ⊆ m'.reserved platform := by
  constructor
  · rintro x (hx | ⟨t, ht, hx⟩)
    · exact Or.inl hx
    · exact Or.inr ⟨t, h ▸ List.mem_cons_of_mem _ ht, hx⟩
  · exact fun x hx => Or.inr ⟨run, h ▸ List.mem_cons_self, hx⟩

theorem reserved_congr (h : m'.runs = m.runs) : m'.reserved platform = m.reserved platform := by
  rw [reserved, h, reserved]

/-- The new pages are on the free list. -/
theorem Sound.grow (h : Sound platform m arena free busy region)
    (hfresh : m.FreshPages platform p size) (hsize : 64 ≤ size) : ∃ m₁ m' free',
      m.mapPages platform arena p size = some m₁ ∧
      m₁.addToFreelist platform (p + sizeofHeader) arena = some m' ∧
      Sound platform m' arena free' busy (extent (p, size) ∪ region) ∧
      Kept m m' arena busy (extent (p, size) ∪ region) ∧ m'.runs = (p, size) :: m.runs ∧
      ∃ y ∈ free', size ≤ (m'.node y).size := by
  obtain ⟨m₁, hmap, hheap, hruns, harenas, hself, hsame⟩ := h.map hfresh hsize
  have hp : p ∉ region := by
    intro hmem
    have hin : p ∈ extent (p, size) := ⟨Nat.le_refl _, by simp only; omega⟩
    exact Set.disjoint_left.mp hfresh.disjoint hin (h.region_reserved hmem)
  have hblocks : ∀ x ∈ free ++ busy, x ≠ p := by
    rintro x hx rfl
    exact hp (h.mem_region hx)
  have hapart : m₁.Apart free := h.apart.imp_of_mem fun hx _ hxy => by
    rwa [hsame _ (hblocks _ (List.mem_append_left _ hx))]
  obtain ⟨m', free', hadd, hheap', hapart', hframe, hgrown⟩ :=
    hheap.addToFreelist hapart (by rw [hself]) (by rw [hself])
  have hnodes : ∀ x ∈ p :: free, x ∈ extent (p, size) ∪ region := by
    intro x hx
    refine hheap.mem_region ?_
    simp only [List.mem_append, List.mem_cons] at hx ⊢
    tauto
  have hbusy : ∀ x ∈ busy, x ≠ arena ∧ x ∉ p :: free := by
    intro x hx
    refine ⟨h.ne_arena (List.mem_append_right _ hx), ?_⟩
    rintro (_ | ⟨_, hfree⟩)
    · exact hblocks p (List.mem_append_right _ hx) rfl
    · exact (List.nodup_append.mp h.nodup).2.2 x hfree x hx rfl
  have hmapped : Kept m m₁ arena busy (extent (p, size) ∪ region) := by
    refine ⟨fun x _ hx => hsame x ?_, fun x hx => hsame x ?_, fun b _ => congrFun harenas b⟩
    · rintro rfl
      exact hx (hnodes x List.mem_cons_self)
    · exact hblocks x (List.mem_append_right _ hx)
  have hkept := hmapped.trans (hframe.kept hnodes hbusy)
  have hruns' : m'.runs = (p, size) :: m.runs := hframe.runs.trans hruns
  obtain ⟨hold, hnew⟩ := reserved_cons platform (p, size) hruns'
  obtain ⟨y, hy, hyp, hend⟩ := hgrown p List.mem_cons_self
  refine ⟨m₁, m', free', hmap, hadd, ⟨hheap', hapart', fun x hx => ?_, ?_,
    hold h.arena_reserved, ?_⟩, hkept, hruns', y, hy, ?_⟩
  · rw [hkept.busy x hx]
    exact h.marked x hx
  · rw [hframe.count, harenas]
    exact h.count
  · exact Set.union_subset hnew (h.region_reserved.trans hold)
  · rw [hself] at hend
    simp only at hend
    omega

/-! ## The loop of `DoAllocWithArena` -/

theorem find?_isSome {y : Nat} (hy : y ∈ free) (hfits : m.fits r y = true) :
    ∃ s, free.find? (m.fits r) = some s :=
  Option.isSome_iff_exists.mp (List.find?_isSome.mpr ⟨y, hy, hfits⟩)

/-- With a free block that is large enough no pages are mapped. -/
theorem Sound.findRegion_found (h : Sound platform m arena free busy region) (hr : 64 ≤ r)
    (hfind : free.find? (m.fits r) = some s) (pages : List Nat) :
    Memory.findRegion platform arena r pages m = some (s, [], m) := by
  have hfound := (h.find h.apart hr).trans (congrArg some hfind)
  cases pages <;>
    simp only [Memory.findRegion, hfound, Option.bind_eq_bind, Option.bind_some, Option.pure_def]

theorem pagesize_mul (platform : Platform σ) : ∃ k ≤ 63, platform.pagesize * 16 = 2 ^ k := by
  obtain ⟨k, hk, hpagesize⟩ := platform.pagesize_eq
  exact ⟨k + 4, by omega, by rw [hpagesize, Nat.pow_add]⟩

/-- Without one they are mapped, and then there is one. -/
theorem Sound.findRegion_map (h : Sound platform m arena free busy region) (hr : 64 ≤ r)
    (hfind : free.find? (m.fits r) = none)
    (hsize : CppGuard.roundUp r (platform.pagesize * 16) = some size)
    (hfresh : m.FreshPages platform p size) (pages : List Nat) : ∃ s m' free',
      Memory.findRegion platform arena r (p :: pages) m = some (s, [(p, size)], m') ∧
      Sound platform m' arena free' busy (extent (p, size) ∪ region) ∧
      free'.find? (m'.fits r) = some s ∧
      Kept m m' arena busy (extent (p, size) ∪ region) ∧ m'.runs = (p, size) :: m.runs := by
  obtain ⟨k, hk, hpagesize⟩ := pagesize_mul platform
  have hle : r ≤ size := (roundUp_eq_some (by omega) (hpagesize ▸ hsize)).1
  obtain ⟨m₁, m', free', hmap, hadd, hsound, hkept, hruns, y, hy, hfits⟩ :=
    h.grow hfresh (Nat.le_trans hr hle)
  obtain ⟨s, hs⟩ := find?_isSome (m := m') (r := r) hy (decide_eq_true (Nat.le_trans hle hfits))
  refine ⟨s, m', free', ?_, hsound, hs, hkept, hruns⟩
  simp only [Memory.findRegion, h.find h.apart hr, hfind, Option.bind_eq_bind, Option.bind_some,
    h.pagesize, hsize, hmap, hadd, hsound.findRegion_found hr hs pages, Option.pure_def]

/-- The region is the first free block that is large enough, after at most one mapping. -/
theorem Sound.findRegion (h : Sound platform m arena free busy region) (hr : 64 ≤ r)
    {pages : List Nat} {runs : List (Nat × Nat)}
    (hfound : Memory.findRegion platform arena r pages m = some (s, runs, m')) : ∃ free',
      Sound platform m' arena free' busy (covered runs ∪ region) ∧
      free'.find? (m'.fits r) = some s ∧ Kept m m' arena busy (covered runs ∪ region) ∧
      m'.runs = runs ++ m.runs ∧ Disjoint (covered runs) (m.reserved platform) ∧
      (runs = [] ∧ free.find? (m.fits r) = some s ∨
        free.find? (m.fits r) = none ∧ ∃ run, runs = [run]) := by
  cases hfind : free.find? (m.fits r) with
  | some s' =>
    rw [h.findRegion_found hr hfind pages] at hfound
    cases hfound
    refine ⟨free, ?_, hfind, ?_, rfl, by simp, Or.inl ⟨rfl, rfl⟩⟩ <;>
      rw [covered_nil, Set.empty_union]
    · exact h
    · exact .refl m arena busy region
  | none =>
    have hnone := (h.find h.apart hr).trans (congrArg some hfind)
    cases pages with
    | nil =>
      simp [Memory.findRegion, hnone] at hfound
    | cons p pages =>
      have hmapped : ∃ size, CppGuard.roundUp r (platform.pagesize * 16) = some size ∧
          m.FreshPages platform p size := by
        simp only [Memory.findRegion, hnone, h.pagesize, mapPages, Option.bind_eq_bind,
          Option.bind_some, Option.bind_eq_some_iff] at hfound
        obtain ⟨size, hsize, m₁, hmap, -⟩ := hfound
        refine ⟨size, hsize, ?_⟩
        by_contra hstale
        rw [if_neg hstale] at hmap
        cases hmap
      obtain ⟨size, hsize, hfresh⟩ := hmapped
      obtain ⟨s', m'', free', hfound', hsound, hs, hkept, hruns⟩ :=
        h.findRegion_map hr hfind hsize hfresh pages
      rw [hfound'] at hfound
      cases hfound
      rw [covered_cons, covered_nil, Set.union_empty]
      exact ⟨free', hsound, hs, hkept, hruns, hfresh.disjoint, Or.inr ⟨rfl, _, rfl⟩⟩

/-! ## Taking the region -/

/-- The end of an allocated block becomes a free block. -/
theorem Heap.carve (h : Heap platform m arena free (s :: busy) region) (hapart : m.Apart free)
    (hr : 64 ≤ r) (hsize : r + 64 ≤ (m.node s).size) (hn : n = r + s) : ∃ m' free',
      ((m.modifyNode n ({ · with
          size := (m.node s).size - r, magic := magicOf kMagicAllocated n,
          arena := some arena })).modifyNode s ({ · with size := r })).addToFreelist platform
        (n + sizeofHeader) arena = some m' ∧
      Heap platform m' arena free' (s :: busy) region ∧ m'.Apart free' ∧
      Kept m m' arena busy region ∧ m'.node s = { m.node s with size := r } ∧
      (m'.arena arena).allocationCount = (m.arena arena).allocationCount ∧ m'.runs = m.runs := by
  set m₁ := m.modifyNode n ({ · with
    size := (m.node s).size - r, magic := magicOf kMagicAllocated n, arena := some arena })
  set m₂ := m₁.modifyNode s ({ · with size := r })
  have hs : s ∈ free ++ s :: busy := by simp
  obtain ⟨hregion, hnot⟩ := h.notMem_of_cut hs hr hsize
  rw [← hn] at hregion hnot
  have hns : n ≠ s := fun heq => hnot (heq ▸ hs)
  have hsame : ∀ x, x ≠ n → x ≠ s → m₂.node x = m.node x := by
    intro x hxn hxs
    rw [node_modifyNode_of_ne _ hxs, node_modifyNode_of_ne _ hxn]
  have hnodeS : m₂.node s = { m.node s with size := r } := by
    rw [node_modifyNode_self, node_modifyNode_of_ne _ hns.symm]
  have hnodeN : m₂.node n = { m.node n with
      size := (m.node s).size - r, magic := magicOf kMagicAllocated n, arena := some arena } := by
    rw [node_modifyNode_of_ne _ hns, node_modifyNode_self]
  have hheap : Heap platform m₂ arena free (n :: s :: busy) region :=
    h.split hr hsize hn hsame (by rw [hnodeS]) (by rw [hnodeN]) rfl
  have hnodup := List.nodup_append.mp h.nodup
  have hfree : ∀ x ∈ free, m₂.node x = m.node x := by
    intro x hx
    refine hsame x ?_ (hnodup.2.2 x hx s List.mem_cons_self)
    rintro rfl
    exact hnot (List.mem_append_left _ hx)
  have hapart₂ : m₂.Apart free := hapart.imp_of_mem fun hx _ hxy => by rwa [hfree _ hx]
  obtain ⟨m', free', hadd, hheap', hapart', hframe, -⟩ :=
    hheap.addToFreelist hapart₂ (by rw [hnodeN]) (by rw [hnodeN])
  have hrest : ∀ x ∈ s :: busy, x ≠ arena ∧ x ∉ n :: free := by
    intro x hx
    refine ⟨h.ne_arena (List.mem_append_right _ hx), ?_⟩
    rintro (_ | ⟨_, hfree⟩)
    · exact hnot (List.mem_append_right _ hx)
    · exact hnodup.2.2 x hfree x hx rfl
  have hkept : Kept m₂ m' arena busy region := by
    refine hframe.kept (fun x hx => ?_) fun x hx => hrest x (List.mem_cons_of_mem _ hx)
    obtain rfl | hx := List.mem_cons.mp hx
    · exact hregion
    · exact h.mem_region (List.mem_append_left _ hx)
  have hcut : Kept m m₂ arena busy region := by
    refine ⟨fun x _ hx => hsame x ?_ ?_, fun x hx => hsame x ?_ ?_, fun _ _ => rfl⟩
    · rintro rfl
      exact hx hregion
    · rintro rfl
      exact hx (h.mem_region hs)
    · rintro rfl
      exact hnot (List.mem_append_right _ (List.mem_cons_of_mem _ hx))
    · rintro rfl
      exact (List.nodup_cons.mp hnodup.2.1).1 hx
  obtain ⟨hsarena, hsfree⟩ := hrest s List.mem_cons_self
  exact ⟨m', free', hadd, hheap', hapart', hcut.trans hkept,
    (hframe.other s hsarena hsfree).trans hnodeS, hframe.count, hframe.runs⟩

/-- Afterwards the block has `r` bytes at least. -/
theorem Heap.splitRegion (h : Heap platform m arena free (s :: busy) region)
    (hapart : m.Apart free) (hr : 64 ≤ r) (hlt : r + 64 < 2 ^ 64) (hfits : r ≤ (m.node s).size) :
    ∃ m' free', m.splitRegion platform arena s r = some m' ∧
      Heap platform m' arena free' (s :: busy) region ∧ m'.Apart free' ∧
      Kept m m' arena busy region ∧ r ≤ (m'.node s).size ∧
      (m'.node s).arena = (m.node s).arena ∧
      (m'.arena arena).allocationCount = (m.arena arena).allocationCount ∧ m'.runs = m.runs := by
  have hadd : checkedAdd r (m.arena arena).minSize = some (r + 64) := by
    rw [h.minSize]
    exact checkedAdd_eq_some.mpr ⟨rfl, hlt⟩
  simp only [Memory.splitRegion, hadd, Option.bind_eq_bind, Option.bind_some]
  split_ifs with hsplit
  · obtain ⟨m', free', hcarve, hheap, hapart', hkept, hnode, hcount, hruns⟩ :=
      h.carve hapart hr hsplit rfl
    exact ⟨m', free', hcarve, hheap, hapart', hkept, by rw [hnode], by rw [hnode], hcount, hruns⟩
  · exact ⟨m, free, rfl, h, hapart, .refl m arena busy region, hfits, rfl, rfl, rfl⟩

theorem bmod_succ (n : Nat) :
    (Int.bmod n (2 ^ 32) + 1).bmod (2 ^ 32) = Int.bmod (n + 1 : Nat) (2 ^ 32) := by
  rw [Int.bmod_add_bmod]
  rfl

/-- The region is marked as an allocated block, and counted. -/
def markAllocated (m : Memory σ) (arena s : Nat) : Memory σ :=
  (m.modifyNode s ({ · with magic := magicOf kMagicAllocated s })).modifyArena arena fun b =>
    { b with allocationCount := (b.allocationCount + 1).bmod (2 ^ 32) }

theorem node_markAllocated_self (m : Memory σ) (arena s : Nat) :
    (m.markAllocated arena s).node s =
      { m.node s with magic := magicOf kMagicAllocated s } := by
  rw [markAllocated, modifyArena, node_modifyNode_self]

theorem node_markAllocated_of_ne (m : Memory σ) (arena : Nat) (hx : x ≠ s) :
    (m.markAllocated arena s).node x = m.node x := by
  rw [markAllocated, modifyArena, node_modifyNode_of_ne _ hx]

theorem arena_markAllocated (m : Memory σ) (arena s : Nat) :
    (m.markAllocated arena s).arena arena = { m.arena arena with
      allocationCount := ((m.arena arena).allocationCount + 1).bmod (2 ^ 32) } :=
  Function.update_self ..

theorem Heap.markAllocated (h : Heap platform m arena free (s :: busy) region) :
    Heap platform (m.markAllocated arena s) arena free (s :: busy) region := by
  have hnodup := List.nodup_append.mp h.nodup
  refine h.congr ?_ (fun x hx => ?_) (fun x _ => ?_) ⟨_, _, arena_markAllocated m arena s⟩
  · exact node_markAllocated_of_ne m arena (h.ne_arena (by simp)).symm
  · exact node_markAllocated_of_ne m arena (hnodup.2.2 x hx s List.mem_cons_self)
  · rw [Memory.markAllocated, modifyArena, modifyNode_field AllocList.size rfl x]

theorem Heap.kept_markAllocated (h : Heap platform m arena free (s :: busy) region) :
    Kept m (m.markAllocated arena s) arena busy region := by
  have hnodup := List.nodup_append.mp h.nodup
  refine ⟨fun x _ hx => node_markAllocated_of_ne m arena ?_,
    fun x hx => node_markAllocated_of_ne m arena ?_, fun b hb => Function.update_of_ne hb ..⟩
  · rintro rfl
    exact hx (h.mem_region (by simp))
  · rintro rfl
    exact (List.nodup_cons.mp hnodup.2.1).1 hx

/-- The region becomes an allocated block; what is too much for the request stays free. -/
theorem Sound.take (h : Sound platform m arena free busy region) (hr : 64 ≤ r)
    (hlt : r + 64 < 2 ^ 64) (hs : s ∈ free) (hfits : r ≤ (m.node s).size) : ∃ m' free',
      m.takeRegion platform arena s r = some m' ∧
      Sound platform m' arena free' (s :: busy) region ∧ r ≤ (m'.node s).size ∧
      Kept m m' arena busy region ∧ m'.runs = m.runs := by
  obtain ⟨pre, post, rfl⟩ := List.append_of_mem hs
  obtain ⟨m₁, hdelete, hheap₁, hframe₁, hheader₁⟩ := h.delete
  have hsize₁ : ∀ x, (m₁.node x).size = (m.node x).size := fun x => size_eq_of_header (hheader₁ x)
  have hapart₁ : m₁.Apart (pre ++ post) := by
    have hsub : (pre ++ post).Sublist (pre ++ s :: post) := by simp
    exact (h.apart.sublist hsub).imp fun hxy => by rwa [hsize₁]
  have hnodup := List.nodup_append.mp h.nodup
  have hbusy : ∀ x ∈ busy, x ≠ arena ∧ x ∉ pre ++ s :: post := fun x hx =>
    ⟨h.ne_arena (List.mem_append_right _ hx), fun hfree => hnodup.2.2 x hfree x hx rfl⟩
  have hkept₁ : Kept m m₁ arena busy region :=
    hframe₁.kept (fun x hx => h.mem_region (List.mem_append_left _ hx)) hbusy
  have hparent₁ : (m₁.node s).arena = some arena :=
    (parent_eq_of_header (hheader₁ s)).trans (h.unallocated s hs).2
  obtain ⟨m₂, free', hsplit, hheap₂, hapart₂, hkept₂, hle, hparent₂, hcount, hruns⟩ :=
    hheap₁.splitRegion hapart₁ hr hlt (hsize₁ s ▸ hfits)
  rw [hparent₁] at hparent₂
  set m' := m₂.markAllocated arena s
  have hnodeS : m'.node s = { m₂.node s with magic := magicOf kMagicAllocated s } :=
    node_markAllocated_self m₂ arena s
  have htake : m.takeRegion platform arena s r = some m' := by
    have hmark : (m'.node s).arena = some arena := by
      rw [hnodeS]
      exact hparent₂
    simp only [takeRegion, hdelete, hsplit, Option.bind_eq_bind, Option.bind_some]
    change (platform.check ((m'.node s).arena = some arena)).bind _ = _
    rw [platform.check_of hmark]
    rfl
  have hkept := (hkept₁.trans hkept₂).trans hheap₂.kept_markAllocated
  have hruns' : m'.runs = m.runs := hruns.trans hframe₁.runs
  refine ⟨m', free', htake, ⟨hheap₂.markAllocated, ?_, fun x hx => ?_, ?_, ?_, ?_⟩, ?_, hkept,
    hruns'⟩
  · have hnodup₂ := List.nodup_append.mp hheap₂.nodup
    refine hapart₂.imp_of_mem fun hx _ hxy => ?_
    rwa [node_markAllocated_of_ne m₂ arena (hnodup₂.2.2 _ hx s List.mem_cons_self)]
  · obtain rfl | hx := List.mem_cons.mp hx
    · rw [hnodeS]
      exact ⟨rfl, hparent₂⟩
    · rw [hkept.busy x hx]
      exact h.marked x hx
  · rw [arena_markAllocated, hcount, hframe₁.count, h.count, List.length_cons, bmod_succ]
  · exact reserved_congr hruns' ▸ h.arena_reserved
  · exact reserved_congr hruns' ▸ h.region_reserved
  · rw [hnodeS]
    exact hle

/-! ## `AllocWithArena` -/

/-- A block has room for the request, its header, and a node of the free list. -/
theorem roundedSize_eq_some {request : Nat} (hround : (m.arena arena).roundUp = 32)
    (hrequest : 0 < request) (h : m.roundedSize arena request = some r) :
    request + sizeofHeader ≤ r ∧ 64 ≤ r := by
  simp only [Memory.roundedSize, hround, Option.bind_eq_bind, Option.bind_eq_some_iff] at h
  obtain ⟨size, hsize, hr⟩ := h
  obtain ⟨rfl, -⟩ := checkedAdd_eq_some.mp hsize
  obtain ⟨hle, -, hmod, -⟩ := roundUp_eq_some (k := 5) (by decide) hr
  simp only [sizeofHeader] at hle ⊢
  exact ⟨hle, by omega⟩

/-- What a call of `AllocWithArena` leaves. The block is the first one that is large enough, or
pages have been mapped because there was none. -/
theorem Sound.alloc (h : Sound platform m arena free busy region) {request : Nat}
    (hrequest : 0 < request) {pages : List Nat} {v : Option Nat} {runs : List (Nat × Nat)}
    (hcall : m.allocWithArena platform request arena pages = some (v, runs, m')) :
    ∃ s r free', v = some (s + sizeofHeader) ∧ m.roundedSize arena request = some r ∧
      Sound platform m' arena free' (s :: busy) (covered runs ∪ region) ∧
      request + sizeofHeader ≤ (m'.node s).size ∧
      Kept m m' arena busy (covered runs ∪ region) ∧ m'.runs = runs ++ m.runs ∧
      Disjoint (covered runs) (m.reserved platform) ∧
      (runs = [] ∧ free.find? (m.fits r) = some s ∨
        free.find? (m.fits r) = none ∧ ∃ run, runs = [run]) := by
  simp only [allocWithArena, Nat.ne_of_gt hrequest, if_false, Option.bind_eq_bind,
    Option.bind_eq_some_iff, Option.pure_def, Option.some.injEq] at hcall
  obtain ⟨-, -, r, hr, ⟨s, runs', m₁⟩, hfound, m₂, htake, heq⟩ := hcall
  cases heq
  obtain ⟨hle, h64⟩ := roundedSize_eq_some h.roundUp hrequest hr
  obtain ⟨free₁, hsound₁, hfind, hkept₁, hruns₁, hfresh, hfirst⟩ := h.findRegion h64 hfound
  have hs : s ∈ free₁ := List.mem_of_find?_eq_some hfind
  have hfits : r ≤ (m₁.node s).size :=
    of_decide_eq_true (List.find?_eq_some_iff_append.mp hfind).1
  have hlt : r + 64 < 2 ^ 64 := by
    by_contra hge
    have hnone : checkedAdd r 64 = none := if_neg hge
    obtain ⟨pre, post, rfl⟩ := List.append_of_mem hs
    obtain ⟨m₃, hdelete, hheap, -⟩ := hsound₁.toHeap.delete
    simp only [takeRegion, Memory.splitRegion, hdelete, hheap.minSize, hnone, Option.bind_eq_bind,
      Option.bind_some, Option.bind_none] at htake
    cases htake
  obtain ⟨m₃, free', htake', hsound, hsize, hkept, hruns⟩ := hsound₁.take h64 hlt hs hfits
  obtain rfl : m₃ = m' := Option.some.inj (htake'.symm.trans htake)
  exact ⟨s, r, free', rfl, hr, hsound, Nat.le_trans hle hsize, hkept₁.trans hkept,
    hruns.trans hruns₁, hfresh, hfirst⟩

/-- A call returns without pages if a free block is large enough. -/
theorem Sound.alloc_returns (h : Sound platform m arena free busy region) {request : Nat}
    (hrequest : 0 < request) (harena : arena ≠ 0) (hr : m.roundedSize arena request = some r)
    (hlt : r + 64 < 2 ^ 64) (hfind : free.find? (m.fits r) = some s) (pages : List Nat) :
    ∃ m', m.allocWithArena platform request arena pages =
      some (some (s + sizeofHeader), [], m') := by
  obtain ⟨-, h64⟩ := roundedSize_eq_some h.roundUp hrequest hr
  have hfits : r ≤ (m.node s).size :=
    of_decide_eq_true (List.find?_eq_some_iff_append.mp hfind).1
  obtain ⟨m', -, htake, -⟩ := h.take h64 hlt (List.mem_of_find?_eq_some hfind) hfits
  refine ⟨m', ?_⟩
  simp only [allocWithArena, platform.check_of harena, Nat.ne_of_gt hrequest, if_false, hr,
    h.findRegion_found h64 hfind pages, htake, Option.bind_eq_bind, Option.bind_some,
    Option.pure_def]

/-- Otherwise it returns with one run of new pages. -/
theorem Sound.alloc_returns_mapped (h : Sound platform m arena free busy region) {request : Nat}
    (hrequest : 0 < request) (harena : arena ≠ 0) (hr : m.roundedSize arena request = some r)
    (hlt : r + 64 < 2 ^ 64) (hfind : free.find? (m.fits r) = none)
    (hsize : CppGuard.roundUp r (platform.pagesize * 16) = some size)
    (hfresh : m.FreshPages platform p size) (pages : List Nat) :
    ∃ s m', m.allocWithArena platform request arena (p :: pages) =
      some (some (s + sizeofHeader), [(p, size)], m') := by
  obtain ⟨-, h64⟩ := roundedSize_eq_some h.roundUp hrequest hr
  obtain ⟨s, m₁, free', hfound, hsound, hs, -, -⟩ := h.findRegion_map h64 hfind hsize hfresh pages
  have hfits : r ≤ (m₁.node s).size :=
    of_decide_eq_true (List.find?_eq_some_iff_append.mp hs).1
  obtain ⟨m', -, htake, -⟩ := hsound.take h64 hlt (List.mem_of_find?_eq_some hs) hfits
  refine ⟨s, m', ?_⟩
  simp only [allocWithArena, platform.check_of harena, Nat.ne_of_gt hrequest, if_false, hr,
    hfound, htake, Option.bind_eq_bind, Option.bind_some, Option.pure_def]

/-! ## `Free` -/

theorem bmod_pred (n : Nat) :
    (Int.bmod (n + 1 : Nat) (2 ^ 32) - 1).bmod (2 ^ 32) = Int.bmod n (2 ^ 32) := by
  rw [Int.bmod_sub_bmod, Int.natCast_add, Int.natCast_one, Int.add_sub_cancel]

/-- A call of `Free` returns the block to the free list. Only the count is asserted after that. -/
theorem Sound.release (h : Sound platform m arena free (s :: busy) region) : ∃ m' free',
    m.free platform (s + sizeofHeader) =
      (platform.check (0 < (m.arena arena).allocationCount)).map (fun _ => m') ∧
    Sound platform m' arena free' busy region ∧ Kept m m' arena busy region ∧
    m'.runs = m.runs := by
  obtain ⟨hmagic, hparent⟩ := h.marked s List.mem_cons_self
  obtain ⟨m₁, free', hadd, hheap₁, hapart₁, hframe₁, -⟩ :=
    h.toHeap.addToFreelist h.apart hmagic hparent
  have hnodup := List.nodup_append.mp h.nodup
  have hkept₁ : Kept m m₁ arena busy region := by
    refine hframe₁.kept (fun x hx => ?_) fun x hx => ⟨?_, ?_⟩
    · obtain rfl | hx := List.mem_cons.mp hx
      · exact h.mem_region (by simp)
      · exact h.mem_region (List.mem_append_left _ hx)
    · exact h.ne_arena (List.mem_append_right _ (List.mem_cons_of_mem _ hx))
    · rintro (_ | ⟨_, hfree⟩)
      · exact (List.nodup_cons.mp hnodup.2.1).1 hx
      · exact hnodup.2.2 x hfree x (List.mem_cons_of_mem _ hx) rfl
  set m' := m₁.modifyArena arena fun b =>
    { b with allocationCount := (b.allocationCount - 1).bmod (2 ^ 32) }
  have harena : m'.arena arena = { m₁.arena arena with
      allocationCount := ((m₁.arena arena).allocationCount - 1).bmod (2 ^ 32) } :=
    Function.update_self ..
  have hcount := hframe₁.count
  have hfree : m.free platform (s + sizeofHeader) =
      (platform.check (0 < (m.arena arena).allocationCount)).map fun _ => m' := by
    have hne : s + sizeofHeader ≠ 0 := Nat.ne_of_gt (Nat.add_pos_right s (by decide))
    simp only [Memory.free, hne, if_false, Nat.add_sub_cancel, hparent, hadd, hcount,
      Option.bind_eq_bind, Option.bind_some]
    cases platform.check (0 < (m.arena arena).allocationCount) <;> rfl
  have hheap : Heap platform m' arena free' busy region :=
    hheap₁.congr rfl (fun _ _ => rfl) (fun _ _ => rfl) ⟨_, _, harena⟩
  have hkept : Kept m m' arena busy region := by
    refine hkept₁.trans ⟨fun _ _ _ => rfl, fun _ _ => rfl, fun b hb => ?_⟩
    exact Function.update_of_ne hb ..
  have hruns : m'.runs = m.runs := hframe₁.runs
  refine ⟨m', free', hfree, ⟨hheap, hapart₁, fun x hx => ?_, ?_, ?_, ?_⟩, hkept, hruns⟩
  · rw [hkept.busy x hx]
    exact h.marked x (List.mem_cons_of_mem _ hx)
  · rw [harena]
    change ((m₁.arena arena).allocationCount - 1).bmod (2 ^ 32) = _
    rw [hcount, h.count, List.length_cons, bmod_pred]
  · exact reserved_congr hruns ▸ h.arena_reserved
  · exact reserved_congr hruns ▸ h.region_reserved

end Memory
end CppGuard
