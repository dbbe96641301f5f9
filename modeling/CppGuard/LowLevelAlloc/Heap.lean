import CppGuard.Library.Tiles
import CppGuard.LowLevelAlloc.FreeList

/-!
# The heap of an arena

The free and the allocated blocks of an arena tile the memory that was mapped for it. A free block
is as high as `LLA_SkiplistLevels` permits for its size. Freeing a block keeps the heap, and leaves
no two free blocks that touch.
-/
namespace CppGuard
open LinkedChain

/-! ## The levels of a block -/

theorem intLog2From_mono (base bits : Nat) {i j : Nat} (h : i ≤ j) :
    intLog2From base bits i ≤ intLog2From base bits j := by
  induction bits generalizing i j with
  | zero => exact Nat.le_refl _
  | succ bits ih =>
    unfold intLog2From
    split_ifs with hi hj
    · exact Nat.succ_le_succ (ih (Nat.div_le_div_right h))
    · exact absurd (Nat.lt_of_lt_of_le hi h) hj
    · exact Nat.zero_le _
    · exact Nat.le_refl _

theorem roundedUpBlockSize_eq : roundedUpBlockSize = 32 := by decide

/-- The levels of a block of `size` bytes, if `Random` returns `n`. -/
def levelsOf (size n : Nat) : Nat :=
  min (min (intLog2 size 64 + n) ((size - offsetofNext) / 8)) (kMaxLevel - 1)

theorem levelsOf_pos {size n : Nat} (hsize : 64 ≤ size) (hn : 1 ≤ n) : 1 ≤ levelsOf size n := by
  simp only [levelsOf, offsetofNext, kMaxLevel]
  omega

/-- A larger block has at least the levels that a search for a smaller one needs. -/
theorem levelsOf_mono {size size' n : Nat} (hle : size ≤ size') (hn : 1 ≤ n) :
    levelsOf size 1 ≤ levelsOf size' n := by
  have hlog : intLog2 size 64 ≤ intLog2 size' 64 := intLog2From_mono 64 64 hle
  simp only [levelsOf, offsetofNext]
  omega

namespace Platform

variable {σ : Type} (platform : Platform σ)

theorem check_of {p : Prop} [Decidable p] (h : p) : platform.check p = some () := by
  simp [check, h]

/-- Without assertions nothing is checked. -/
theorem check_of_not {p : Prop} [Decidable p] (h : platform.assertions = false) :
    platform.check p = some () := by
  simp [check, h]

theorem skiplistLevels_eq {size n : Nat} (hsize : 64 ≤ size) (hn : 1 ≤ n) :
    platform.skiplistLevels size 64 n = some (levelsOf size n) := by
  have hpos := levelsOf_pos hsize hn
  have hlevel : ∀ a b c : Nat,
      (if c < (if b < a then b else a) then c else if b < a then b else a) =
        min (min a b) c := by
    intro a b c
    split_ifs <;> omega
  rw [skiplistLevels, hlevel]
  change (platform.check (1 ≤ levelsOf size n)).bind _ = _
  rw [platform.check_of hpos]
  rfl

end Platform

namespace Memory

variable {σ : Type} {platform : Platform σ} {m m' : Memory σ} {arena a e n x : Nat}
  {free busy nodes pre post post' : List Nat} {region : Set Nat}

/-- A block as an interval. -/
def tile (m : Memory σ) (x : Nat) : Nat × Nat := (x, (m.node x).size)

/-- No free block touches the next one. -/
def Apart (m : Memory σ) (free : List Nat) : Prop :=
  free.Pairwise fun x y => x + (m.node x).size < y

/-- The arena is as `Arena::Arena` builds it. -/
structure Built (platform : Platform σ) (m : Memory σ) (arena : Nat) : Prop where
  pagesize : (m.arena arena).pagesize = platform.pagesize
  roundUp : (m.arena arena).roundUp = 32
  minSize : (m.arena arena).minSize = 64
  head : (m.node arena).size = 0

theorem Built.congr (h : Built platform m arena)
    (hnode : (m'.node arena).size = (m.node arena).size)
    (harena : ∃ allocationCount random,
      m'.arena arena = { m.arena arena with allocationCount, random }) :
    Built platform m' arena := by
  obtain ⟨_, _, harena⟩ := harena
  refine ⟨?_, ?_, ?_, hnode.trans h.head⟩
  · rw [harena]
    exact h.pagesize
  · rw [harena]
    exact h.roundUp
  · rw [harena]
    exact h.minSize

/-- The blocks of an arena. Of an allocated block only the size counts. -/
structure Heap (platform : Platform σ) (m : Memory σ) (arena : Nat) (free busy : List Nat)
    (region : Set Nat) : Prop extends Built platform m arena where
  freeList : FreeList m arena free
  unallocated : ∀ x ∈ free, (m.node x).magic = magicOf kMagicUnallocated x ∧
    (m.node x).arena = some arena
  fitting : ∀ x ∈ free, ∃ n ≥ 1, (m.node x).levels = levelsOf (m.node x).size n
  size_le : ∀ x ∈ free ++ busy, 64 ≤ (m.node x).size
  tiles : Tiles ((free ++ busy).map m.tile) region
  arena_notMem : arena ∉ region
  region_lt : ∀ x ∈ region, x < 2 ^ 64

theorem Heap.mem_region (h : Heap platform m arena free busy region) (hx : x ∈ free ++ busy) :
    x ∈ region := by
  refine h.tiles.mem_region (List.mem_map_of_mem hx) ⟨Nat.le_refl _, ?_⟩
  have := h.size_le x hx
  simp only [tile]
  omega

theorem Heap.ne_arena (h : Heap platform m arena free busy region) (hx : x ∈ free ++ busy) :
    x ≠ arena := fun heq => h.arena_notMem (heq ▸ h.mem_region hx)

/-- Distinct blocks do not overlap. -/
theorem Heap.eq_of_mem (h : Heap platform m arena free busy region) {y z : Nat}
    (hx : x ∈ free ++ busy) (hy : y ∈ free ++ busy) (hzx : z ∈ extent (m.tile x))
    (hzy : z ∈ extent (m.tile y)) : x = y :=
  congrArg Prod.fst
    (h.tiles.eq_of_mem (List.mem_map_of_mem hx) (List.mem_map_of_mem hy) hzx hzy)

/-- In the free list a block ends before the next one, or where it begins. -/
theorem Heap.ordered (h : Heap platform m arena free busy region) :
    free.Pairwise fun x y => x + (m.node x).size ≤ y := by
  have hle := h.tiles.pairwise_le ((List.sublist_append_left free busy).map m.tile) ?_ ?_
  · exact (List.pairwise_map (f := m.tile)).mp hle
  · intro t ht
    obtain ⟨x, hx, rfl⟩ := List.mem_map.mp ht
    exact Nat.lt_of_lt_of_le (by decide) (h.size_le x (List.mem_append_left _ hx))
  · exact (List.pairwise_map (f := m.tile)).mpr h.freeList.skip.sorted

/-- A block is in one place only. -/
theorem Heap.nodup (h : Heap platform m arena free busy region) : (free ++ busy).Nodup := by
  have hdisjoint := List.pairwise_map.mp h.tiles.disjoint
  refine hdisjoint.imp_of_mem fun hx _ hxy => ?_
  rintro rfl
  have hsize := h.size_le _ hx
  refine disjoint_extent.mp hxy _ ⟨Nat.le_refl _, ?_⟩ ⟨Nat.le_refl _, ?_⟩ <;>
    · simp only [tile]
      omega

theorem size_eq_of_header (h : (m'.node x).header = (m.node x).header) :
    (m'.node x).size = (m.node x).size := congrArg Prod.fst h

theorem magic_eq_of_header (h : (m'.node x).header = (m.node x).header) :
    (m'.node x).magic = (m.node x).magic := congrArg (fun p => p.2.1) h

theorem parent_eq_of_header (h : (m'.node x).header = (m.node x).header) :
    (m'.node x).arena = (m.node x).arena := congrArg (fun p => p.2.2) h

/-- Only the arena, its random numbers and the nodes `nodes` may have changed. -/
structure Frame (m m' : Memory σ) (arena : Nat) (nodes : List Nat) : Prop where
  other : ∀ x, x ≠ arena → x ∉ nodes → m'.node x = m.node x
  head : (m'.node arena).size = (m.node arena).size
  arenas : ∀ b, b ≠ arena → m'.arena b = m.arena b
  own : ∃ random, m'.arena arena = { m.arena arena with random }
  runs : m'.runs = m.runs

theorem Frame.refl (m : Memory σ) (arena : Nat) (nodes : List Nat) : Frame m m arena nodes :=
  ⟨fun _ _ _ => rfl, rfl, fun _ _ => rfl, ⟨_, rfl⟩, rfl⟩

theorem Frame.trans {m'' : Memory σ} (h : Frame m m' arena nodes)
    (h' : Frame m' m'' arena nodes) : Frame m m'' arena nodes where
  other x hx hnot := (h'.other x hx hnot).trans (h.other x hx hnot)
  head := h'.head.trans h.head
  arenas b hb := (h'.arenas b hb).trans (h.arenas b hb)
  own := by
    obtain ⟨random, hown⟩ := h.own
    obtain ⟨random', hown'⟩ := h'.own
    exact ⟨random', by rw [hown', hown]⟩
  runs := h'.runs.trans h.runs

theorem Frame.mono {nodes' : List Nat} (h : Frame m m' arena nodes) (hsub : nodes ⊆ nodes') :
    Frame m m' arena nodes' :=
  { h with other := fun x hx hnot => h.other x hx fun hmem => hnot (hsub hmem) }

theorem Relinked.frame (h : Relinked m m' arena nodes) : Frame m m' arena nodes where
  other := h.other
  head := size_eq_of_header (h.header arena)
  arenas b _ := congrFun h.arenas b
  own := ⟨(m.arena arena).random, congrFun h.arenas arena⟩
  runs := h.runs

theorem Frame.modifyNode (m : Memory σ) (ha : a ∈ nodes) (hne : a ≠ arena)
    (f : AllocList → AllocList) : Frame m (m.modifyNode a f) arena nodes where
  other x _ hnot := node_modifyNode_of_ne f fun heq => hnot (heq ▸ ha)
  head := by rw [node_modifyNode_of_ne f hne.symm]
  arenas _ _ := rfl
  own := ⟨_, rfl⟩
  runs := rfl

theorem Frame.built (h : Frame m m' arena nodes) (hbuilt : Built platform m arena) :
    Built platform m' arena := by
  obtain ⟨random, hown⟩ := h.own
  exact hbuilt.congr h.head ⟨(m.arena arena).allocationCount, random, hown⟩

theorem Frame.count (h : Frame m m' arena nodes) :
    (m'.arena arena).allocationCount = (m.arena arena).allocationCount := by
  obtain ⟨random, hown⟩ := h.own
  rw [hown]

/-! ## A new node -/

/-- The levels are assigned, and the rest is as before. -/
theorem assignLevels_eq (platform : Platform σ) (hmin : (m.arena arena).minSize = 64)
    (hsize : 64 ≤ (m.node a).size) :
    ∃ n ≥ 1, ∃ random, m.assignLevels platform arena a = some
      ((m.modifyArena arena ({ · with random })).setLevels a (levelsOf (m.node a).size n)) := by
  have hn := platform.random_pos (m.arena arena).random
  refine ⟨_, hn, (platform.random (m.arena arena).random).2, ?_⟩
  simp only [assignLevels, hmin, platform.skiplistLevels_eq hsize hn]
  rfl

/-- A block is put on the free list with new levels. -/
theorem FreeList.enter (platform : Platform σ) (h : FreeList m arena (pre ++ post))
    (hmin : (m.arena arena).minSize = 64) (hne : e ≠ arena) (hsize : 64 ≤ (m.node e).size)
    (hpre : ∀ x ∈ pre, x < e) (hpost : ∀ x ∈ post, e < x) : ∃ m₁ prev m',
      m.assignLevels platform arena e = some m₁ ∧
      m₁.insert arena e = some (prev, m') ∧ prev.head? = some (lastOr arena pre) ∧
      FreeList m' arena (pre ++ e :: post) ∧ Frame m m' arena (pre ++ e :: post) ∧
      (∀ x, (m'.node x).header = (m.node x).header) ∧
      (∃ n ≥ 1, (m'.node e).levels = levelsOf (m.node e).size n) ∧
      ∀ x, x ≠ arena → x ≠ e → (m'.node x).levels = (m.node x).levels := by
  obtain ⟨n, hn, random, hassign⟩ := assignLevels_eq platform hmin hsize
  set m₁ := (m.modifyArena arena ({ · with random })).setLevels e (levelsOf (m.node e).size n)
  have hlevels : (m₁.node e).levels = levelsOf (m.node e).size n :=
    congrArg AllocList.levels (node_modifyNode_self _)
  have hsame : ∀ x, x ≠ e → m₁.node x = m.node x := fun x hx => node_modifyNode_of_ne _ hx
  have hnot : ∀ x ∈ pre ++ post, x ≠ e := by
    intro x hx
    obtain hx | hx := List.mem_append.mp hx
    · exact Nat.ne_of_lt (hpre x hx)
    · exact Nat.ne_of_gt (hpost x hx)
  have hfree : FreeList m₁ arena (pre ++ post) := by
    refine h.congr (fun x hx => ?_) ?_ ?_
    · rw [hsame x (hnot x hx)]
      exact ⟨rfl, rfl⟩
    · rw [hsame arena hne.symm]
    · rw [hsame arena hne.symm]
  obtain ⟨prev, m', hinsert, hprev, hfree', hrelinked⟩ :=
    hfree.insert hne hpre hpost (hlevels ▸ levelsOf_pos hsize hn)
  have hassigned : Frame m m₁ arena (pre ++ e :: post) := by
    refine ⟨fun x _ hx => hsame x ?_, congrArg AllocList.size (hsame arena hne.symm),
      fun b hb => Function.update_of_ne hb .., ⟨random, Function.update_self ..⟩, rfl⟩
    rintro rfl
    exact hx (by simp)
  have hheader : ∀ x, (m₁.node x).header = (m.node x).header :=
    modifyNode_field AllocList.header rfl
  refine ⟨m₁, prev, m', hassign, hinsert, hprev, hfree', hassigned.trans hrelinked.frame,
    fun x => (hrelinked.header x).trans (hheader x), ⟨n, hn, ?_⟩, fun x hx hxe => ?_⟩
  · rw [hrelinked.levels e hne, hlevels]
  · rw [hrelinked.levels x hx, hsame x hxe]

/-! ## Coalescing -/

theorem perm_block (pre post busy : List Nat) (a : Nat) :
    (pre ++ a :: post ++ busy).Perm (a :: (pre ++ post ++ busy)) :=
  List.perm_middle.append_right busy

/-- The link on level 0 leads to the next block. -/
theorem FreeList.next_zero (h : FreeList m arena (pre ++ a :: post)) :
    (m.node a).next 0 = post.head? := (h.chain_zero.of_append).2.eq_head?

/-- What coalescing a block with its successor leaves. -/
def Coalesced (m m' : Memory σ) (a : Nat) (post post' : List Nat) : Prop :=
  (post' = post ∧ m' = m ∧ ∀ n ∈ post.head?, a + (m.node a).size ≠ n) ∨
  ∃ n, post = n :: post' ∧ a + (m.node a).size = n ∧
    (m'.node a).size = (m.node a).size + (m.node n).size ∧
    ∀ x, x ≠ a → (m'.node x).size = (m.node x).size

/-- The headers that coalescing writes: `a` takes over the bytes of `n`. -/
def absorb (m : Memory σ) (a n : Nat) : Memory σ :=
  (m.modifyNode a ({ · with size := (m.node a).size + (m.node n).size })).modifyNode n
    ({ · with magic := 0, arena := none })

theorem levels_absorb (m : Memory σ) (a n x : Nat) :
    ((m.absorb a n).node x).levels = (m.node x).levels :=
  (modifyNode_field AllocList.levels rfl x).trans (modifyNode_field AllocList.levels rfl x)

theorem next_absorb (m : Memory σ) (a n x : Nat) :
    ((m.absorb a n).node x).next = (m.node x).next :=
  (modifyNode_field AllocList.next rfl x).trans (modifyNode_field AllocList.next rfl x)

theorem size_absorb_self (m : Memory σ) (h : a ≠ n) :
    ((m.absorb a n).node a).size = (m.node a).size + (m.node n).size := by
  rw [absorb, node_modifyNode_of_ne _ h, node_modifyNode_self]

theorem size_absorb_of_ne (m : Memory σ) (n : Nat) (h : x ≠ a) :
    ((m.absorb a n).node x).size = (m.node x).size := by
  refine (modifyNode_field AllocList.size rfl x).trans ?_
  rw [node_modifyNode_of_ne _ h]

theorem marks_absorb (m : Memory σ) (a : Nat) (h : x ≠ n) :
    ((m.absorb a n).node x).magic = (m.node x).magic ∧
      ((m.absorb a n).node x).arena = (m.node x).arena := by
  rw [absorb, node_modifyNode_of_ne _ h]
  exact ⟨modifyNode_field AllocList.magic rfl x, modifyNode_field AllocList.arena rfl x⟩

theorem Frame.absorb (m : Memory σ) (ha : a ∈ nodes) (hn : n ∈ nodes)
    (hmem : ∀ x ∈ nodes, x ≠ arena) : Frame m (m.absorb a n) arena nodes :=
  (Frame.modifyNode m ha (hmem a ha) _).trans (Frame.modifyNode _ hn (hmem n hn) _)

theorem mem_cons_middle (h : x ∈ pre ++ a :: post) : x ∈ pre ++ a :: n :: post := by
  simp only [List.mem_append, List.mem_cons] at h ⊢
  tauto

/-- Two neighbours are taken out of the free list. -/
theorem FreeList.delete_pair (h : FreeList m arena (pre ++ a :: n :: post))
    (platform : Platform σ) : ∃ m₁ m', m.delete platform arena n = some m₁ ∧
      m₁.delete platform arena a = some m' ∧ FreeList m' arena (pre ++ post) ∧
      Relinked m m' arena (pre ++ a :: n :: post) := by
  rw [List.append_cons] at h
  obtain ⟨m₁, hdelete₁, hfree₁, hrelinked₁⟩ := h.delete platform
  rw [← List.append_cons] at hfree₁ hrelinked₁
  obtain ⟨m', hdelete', hfree', hrelinked'⟩ := hfree₁.delete platform
  refine ⟨m₁, m', hdelete₁, hdelete', hfree', hrelinked₁.trans ?_⟩
  exact hrelinked'.mono fun _ => mem_cons_middle

/-- The tile of a block and the one that it touches become one. -/
theorem Heap.tiles_merged (h : Heap platform m arena (pre ++ a :: n :: post) busy region)
    (htouch : a + (m.node a).size = n)
    (hsize : (m'.node a).size = (m.node a).size + (m.node n).size)
    (hother : ∀ x, x ≠ a → (m'.node x).size = (m.node x).size) :
    Tiles ((pre ++ a :: post ++ busy).map m'.tile) region := by
  have hrest : (pre ++ post ++ busy).map m'.tile = (pre ++ post ++ busy).map m.tile := by
    refine List.map_congr_left fun x hx => ?_
    have hxa : x ≠ a := by
      rintro rfl
      have hperm := perm_block pre (n :: post) busy x
      refine (List.nodup_cons.mp (hperm.nodup_iff.mp h.nodup)).1 ?_
      simp only [List.mem_append, List.mem_cons] at hx ⊢
      tauto
    rw [tile, hother x hxa, tile]
  have htiles := h.tiles.perm ((perm_block pre (n :: post) busy a).map m.tile)
  have hperm : (a :: (pre ++ n :: post ++ busy)).Perm (a :: n :: (pre ++ post ++ busy)) :=
    (perm_block pre post busy n).cons a
  have htiles := htiles.perm (hperm.map m.tile)
  have hmerged : Tiles (m'.tile a :: (pre ++ post ++ busy).map m'.tile) region := by
    rw [hrest, tile, hsize]
    refine Tiles.split_iff.mpr ?_
    rw [htouch]
    exact htiles
  exact hmerged.perm ((perm_block pre post busy a).symm.map m'.tile)

/-- The merged block takes the place of both. -/
theorem Heap.merge (h : Heap platform m arena (pre ++ a :: n :: post) busy region)
    (htouch : a + (m.node a).size = n) : ∃ m', m.coalesce platform a = some m' ∧
      Heap platform m' arena (pre ++ a :: post) busy region ∧
      Frame m m' arena (pre ++ a :: n :: post) ∧
      (m'.node a).size = (m.node a).size + (m.node n).size ∧
      ∀ x, x ≠ a → (m'.node x).size = (m.node x).size := by
  have hmem : ∀ x ∈ pre ++ a :: n :: post, x ≠ arena :=
    fun x hx => h.ne_arena (List.mem_append_left _ hx)
  have hle := h.size_le a (by simp)
  have han : a ≠ n := by omega
  set m₁ := m.absorb a n
  have hsize₁ : (m₁.node a).size = (m.node a).size + (m.node n).size := size_absorb_self m han
  have hframe₁ : Frame m m₁ arena (pre ++ a :: n :: post) := .absorb m (by simp) (by simp) hmem
  have hfree₁ : FreeList m₁ arena (pre ++ a :: n :: post) :=
    h.freeList.congr (fun x _ => ⟨levels_absorb m a n x, next_absorb m a n x⟩)
      (levels_absorb m a n arena) (next_absorb m a n arena)
  obtain ⟨m₂, m₃, hdelete₂, hdelete₃, hfree₃, hrelinked⟩ := hfree₁.delete_pair platform
  have hframe₃ := hframe₁.trans hrelinked.frame
  have hsize₃ : (m₃.node a).size = (m.node a).size + (m.node n).size :=
    (size_eq_of_header (hrelinked.header a)).trans hsize₁
  have hsorted := h.freeList.skip.sorted
  simp only [List.pairwise_append, List.pairwise_cons, List.mem_cons] at hsorted
  obtain ⟨m₄, prev, m', hassign, hinsert, -, hfree', hframe', hheader', hlevels', hkept'⟩ :=
    FreeList.enter platform hfree₃ (hframe₃.built h.toBuilt).minSize
      (hmem a (by simp)) (by omega) (fun x hx => hsorted.2.2 x hx a (Or.inl rfl))
      (fun x hx => hsorted.2.1.1 x (Or.inr hx))
  have hframe : Frame m m' arena (pre ++ a :: n :: post) :=
    hframe₃.trans (hframe'.mono fun _ => mem_cons_middle)
  have hheader : ∀ x, (m'.node x).header = (m₁.node x).header :=
    fun x => (hheader' x).trans (hrelinked.header x)
  have hsize : (m'.node a).size = (m.node a).size + (m.node n).size :=
    (size_eq_of_header (hheader a)).trans hsize₁
  have hother : ∀ x, x ≠ a → (m'.node x).size = (m.node x).size :=
    fun x hx => (size_eq_of_header (hheader x)).trans (size_absorb_of_ne m n hx)
  have hcoalesce : m.coalesce platform a = some m' := by
    have hnext : (m.node a).next 0 = some n := h.freeList.next_zero
    have hparent := (h.unallocated a (by simp)).2
    simp only [Memory.coalesce, hnext, htouch, hparent, Option.bind_eq_bind, Option.bind_some,
      if_true]
    change (m₁.delete platform arena n).bind _ = _
    simp only [hdelete₂, hdelete₃, hassign, hinsert, Option.bind_some]
    rfl
  have hne : ∀ x ∈ pre ++ a :: post, x ≠ n := by
    rintro x hx rfl
    have hnodup := (List.nodup_append.mp h.nodup).1
    rw [List.append_cons] at hnodup
    refine (List.nodup_cons.mp (List.perm_middle.nodup_iff.mp hnodup)).1 ?_
    rwa [← List.append_cons]
  refine ⟨m', hcoalesce, ⟨hframe.built h.toBuilt, hfree', fun x hx => ?_, fun x hx => ?_,
    fun x hx => ?_, h.tiles_merged htouch hsize hother, h.arena_notMem, h.region_lt⟩,
    hframe, hsize, hother⟩
  · obtain ⟨hmagic, hparent⟩ := marks_absorb m a (hne x hx)
    rw [magic_eq_of_header (hheader x), parent_eq_of_header (hheader x), hmagic, hparent]
    exact h.unallocated x (mem_cons_middle hx)
  · by_cases hxa : x = a
    · subst hxa
      rw [hsize, ← hsize₃]
      exact hlevels'
    · obtain ⟨k, hk, hfitting⟩ := h.fitting x (mem_cons_middle hx)
      refine ⟨k, hk, ?_⟩
      have hxarena := hmem x (mem_cons_middle hx)
      rw [hother x hxa, hkept' x hxarena hxa, hrelinked.levels x hxarena, levels_absorb]
      exact hfitting
  · by_cases hxa : x = a
    · subst hxa
      omega
    · rw [hother x hxa]
      refine h.size_le x ?_
      obtain hx | hx := List.mem_append.mp hx
      · exact List.mem_append_left _ (mem_cons_middle hx)
      · exact List.mem_append_right _ hx

theorem Heap.coalesce (h : Heap platform m arena (pre ++ a :: post) busy region) :
    ∃ m' post', m.coalesce platform a = some m' ∧
      Heap platform m' arena (pre ++ a :: post') busy region ∧
      Frame m m' arena (pre ++ a :: post) ∧ Coalesced m m' a post post' := by
  have hnext := h.freeList.next_zero
  cases post with
  | nil =>
    refine ⟨m, [], ?_, h, .refl m arena _, Or.inl ⟨rfl, rfl, nofun⟩⟩
    simp only [Memory.coalesce, hnext, List.head?_nil]
  | cons n post =>
    by_cases htouch : a + (m.node a).size = n
    · obtain ⟨m', hcoalesce, hheap, hframe, hsize, hother⟩ := h.merge htouch
      exact ⟨m', post, hcoalesce, hheap, hframe, Or.inr ⟨n, rfl, htouch, hsize, hother⟩⟩
    · refine ⟨m, n :: post, ?_, h, .refl m arena _, Or.inl ⟨rfl, rfl, ?_⟩⟩
      · simp only [Memory.coalesce, hnext, List.head?_cons, htouch, if_false]
      · rintro _ ⟨⟩
        exact htouch

/-! ## Freeing a block -/

/-- Every block lies in a block that is there afterwards. -/
def Grown (m m' : Memory σ) (blocks blocks' : List Nat) : Prop :=
  ∀ x ∈ blocks, ∃ y ∈ blocks', y ≤ x ∧ x + (m.node x).size ≤ y + (m'.node y).size

theorem Grown.trans {m'' : Memory σ} {blocks blocks' blocks'' : List Nat}
    (h : Grown m m' blocks blocks') (h' : Grown m' m'' blocks' blocks'') :
    Grown m m'' blocks blocks'' := by
  intro x hx
  obtain ⟨y, hy, hyx, hend⟩ := h x hx
  obtain ⟨z, hz, hzy, hend'⟩ := h' y hy
  exact ⟨z, hz, Nat.le_trans hzy hyx, Nat.le_trans hend hend'⟩

theorem Grown.of_size_eq {blocks blocks' : List Nat}
    (hsize : ∀ x ∈ blocks, (m'.node x).size = (m.node x).size) (hsub : blocks ⊆ blocks') :
    Grown m m' blocks blocks' :=
  fun x hx => ⟨x, hsub hx, Nat.le_refl _, by rw [hsize x hx]⟩

theorem Coalesced.grown (h : Coalesced m m' a post post')
    (hne : ∀ x ∈ pre ++ post, x ≠ a) : Grown m m' (pre ++ a :: post) (pre ++ a :: post') := by
  obtain ⟨rfl, rfl, -⟩ | ⟨n, rfl, htouch, hsize, hother⟩ := h
  · exact .of_size_eq (fun _ _ => rfl) (List.Subset.refl _)
  · intro x hx
    by_cases hxa : x = a
    · subst hxa
      refine ⟨x, by simp, Nat.le_refl _, ?_⟩
      rw [hsize, ← Nat.add_assoc]
      exact Nat.le_add_right _ _
    · by_cases hxn : x = n
      · subst hxn
        refine ⟨a, by simp, htouch ▸ Nat.le_add_right _ _, ?_⟩
        rw [hsize, ← Nat.add_assoc, htouch]
      · refine ⟨x, ?_, Nat.le_refl _, by rw [hother x hxa]⟩
        simp only [List.mem_append, List.mem_cons] at hx ⊢
        tauto

/-- The block does not touch the next one any more. -/
theorem Coalesced.apart (hc : Coalesced m m' a post post')
    (h : Heap platform m arena (pre ++ a :: post) busy region) (hpost : m.Apart post) :
    m'.Apart (a :: post') := by
  have hordered := (List.pairwise_append.mp h.ordered).2.1
  have hsorted := (List.pairwise_append.mp h.freeList.skip.sorted).2.1
  obtain ⟨hnext, -⟩ := List.pairwise_cons.mp hordered
  obtain ⟨rfl, rfl, hne⟩ | ⟨n, rfl, htouch, hsize, hother⟩ := hc
  · refine List.pairwise_cons.mpr ⟨?_, hpost⟩
    cases post' with
    | nil => exact nofun
    | cons n post' =>
      have hlt : a + (m'.node a).size < n :=
        Nat.lt_of_le_of_ne (hnext n List.mem_cons_self) (hne n rfl)
      refine List.forall_mem_cons.mpr ⟨hlt, fun y hy => Nat.lt_trans hlt ?_⟩
      exact (List.pairwise_cons.mp (List.pairwise_cons.mp hsorted).2).1 y hy
  · obtain ⟨hn, hpost⟩ := List.pairwise_cons.mp hpost
    refine List.pairwise_cons.mpr ⟨fun y hy => ?_, hpost.imp_of_mem fun hx _ hxy => ?_⟩
    · rw [hsize, ← Nat.add_assoc, htouch]
      exact hn y hy
    · rw [hother _ ?_]
      · exact hxy
      · exact Nat.ne_of_gt ((List.pairwise_cons.mp hsorted).1 _ (List.mem_cons_of_mem _ hx))

/-- The block is a free one, but may touch its neighbours. -/
theorem Heap.enter (h : Heap platform m arena (pre ++ post) (e :: busy) region)
    (hpre : ∀ x ∈ pre, x < e) (hpost : ∀ x ∈ post, e < x)
    (hparent : (m.node e).arena = some arena) : ∃ m₁ prev m₂,
      m.assignLevels platform arena e = some m₁ ∧ m₁.insert arena e = some (prev, m₂) ∧
      prev.head? = some (lastOr arena pre) ∧
      Heap platform (m₂.modifyNode e ({ · with magic := magicOf kMagicUnallocated e })) arena
        (pre ++ e :: post) busy region ∧
      Frame m (m₂.modifyNode e ({ · with magic := magicOf kMagicUnallocated e })) arena
        (pre ++ e :: post) ∧
      ∀ x, ((m₂.modifyNode e ({ · with magic := magicOf kMagicUnallocated e })).node x).size =
        (m.node x).size := by
  have he : e ∈ pre ++ post ++ e :: busy := by simp
  have hne := h.ne_arena he
  have hsize := h.size_le e he
  obtain ⟨m₁, prev, m₂, hassign, hinsert, hprev, hfree, hframe, hheader, ⟨k, hk, hlevels⟩, hkept⟩ :=
    FreeList.enter platform h.freeList h.minSize hne hsize hpre hpost
  set m₃ := m₂.modifyNode e ({ · with magic := magicOf kMagicUnallocated e })
  have hframe₃ := hframe.trans (Frame.modifyNode m₂ (by simp) hne _ :
    Frame m₂ m₃ arena (pre ++ e :: post))
  have hsize₃ : ∀ x, (m₃.node x).size = (m.node x).size := fun x =>
    (modifyNode_field AllocList.size rfl x).trans (size_eq_of_header (hheader x))
  have hlevels₃ : ∀ x, (m₃.node x).levels = (m₂.node x).levels :=
    modifyNode_field AllocList.levels rfl
  have hmem : ∀ x ∈ pre ++ e :: post, x = e ∨ x ∈ pre ++ post := fun _ hx => mem_middle hx
  have hold : ∀ x ∈ pre ++ post, x ≠ e ∧ x ≠ arena := by
    intro x hx
    refine ⟨?_, h.ne_arena (List.mem_append_left _ hx)⟩
    obtain hx | hx := List.mem_append.mp hx
    · exact Nat.ne_of_lt (hpre x hx)
    · exact Nat.ne_of_gt (hpost x hx)
  refine ⟨m₁, prev, m₂, hassign, hinsert, hprev, ⟨hframe₃.built h.toBuilt, ?_, fun x hx => ?_,
    fun x hx => ?_, fun x hx => ?_, ?_, h.arena_notMem, h.region_lt⟩, hframe₃, hsize₃⟩
  · refine hfree.congr (fun x _ => ⟨hlevels₃ x, ?_⟩) (hlevels₃ arena) ?_ <;>
      exact modifyNode_field AllocList.next rfl _
  · obtain rfl | hx := hmem x hx
    · rw [node_modifyNode_self]
      exact ⟨rfl, (parent_eq_of_header (hheader x)).trans hparent⟩
    · rw [node_modifyNode_of_ne _ (hold x hx).1, magic_eq_of_header (hheader x),
        parent_eq_of_header (hheader x)]
      exact h.unallocated x hx
  · rw [hlevels₃, hsize₃]
    obtain rfl | hx := hmem x hx
    · exact ⟨k, hk, hlevels⟩
    · rw [hkept x (hold x hx).2 (hold x hx).1]
      exact h.fitting x hx
  · rw [hsize₃]
    refine h.size_le x ?_
    simp only [List.mem_append, List.mem_cons] at hx ⊢
    tauto
  · have hrest : (pre ++ e :: post ++ busy).map m₃.tile = (pre ++ e :: post ++ busy).map m.tile :=
      List.map_congr_left fun x _ => by rw [tile, hsize₃, tile]
    rw [hrest]
    refine h.tiles.perm (List.Perm.map m.tile ?_)
    exact List.perm_middle.trans (perm_block pre post busy e).symm

/-- Only the block itself gets another size. -/
theorem Coalesced.size_eq (hc : Coalesced m m' a post post') (hx : x ≠ a) :
    (m'.node x).size = (m.node x).size := by
  obtain ⟨-, rfl, -⟩ | ⟨n, -, -, -, hother⟩ := hc
  · rfl
  · exact hother x hx

theorem Coalesced.subset (hc : Coalesced m m' a post post') : post' ⊆ post := by
  obtain ⟨rfl, -⟩ | ⟨n, rfl, -⟩ := hc
  · exact List.Subset.refl _
  · exact List.subset_cons_self n post'

/-- The predecessor of a block is coalesced with it, if they touch. -/
theorem Heap.coalescePred (h : Heap platform m arena (pre ++ a :: post) busy region)
    (hpre : m.Apart pre) (hpost : m.Apart (a :: post)) : ∃ m' free',
      m.coalesce platform (lastOr arena pre) = some m' ∧
      Heap platform m' arena free' busy region ∧ m'.Apart free' ∧
      Frame m m' arena (pre ++ a :: post) ∧ Grown m m' (pre ++ a :: post) free' := by
  obtain rfl | ⟨pre, p, rfl⟩ := List.eq_nil_or_concat' pre
  · -- the predecessor is the head, which no block touches
    have hnext : (m.node arena).next 0 = some a := h.freeList.chain_zero.1
    have hne : arena + (m.node arena).size ≠ a := by
      rw [h.head]
      exact (h.ne_arena (by simp)).symm
    refine ⟨m, a :: post, ?_, h, hpost, .refl m arena _, .of_size_eq (fun _ _ => rfl) ?_⟩
    · simp only [lastOr, Memory.coalesce, hnext, hne, if_false]
    · exact List.Subset.refl _
  · rw [← List.append_cons] at h ⊢
    rw [lastOr_append]
    obtain ⟨m', post', hcoalesce, hheap, hframe, hcoalesced⟩ := h.coalesce
    have hapart : m'.Apart (p :: post') := hcoalesced.apart h hpost
    have hne : ∀ x ∈ pre ++ a :: post, x ≠ p := by
      rintro x hx rfl
      have hnodup := (List.nodup_append.mp h.nodup).1
      exact (List.nodup_cons.mp (List.perm_middle.nodup_iff.mp hnodup)).1 hx
    have hsize : ∀ x ∈ pre, (m'.node x).size = (m.node x).size :=
      fun x hx => hcoalesced.size_eq (hne x (List.mem_append_left _ hx))
    refine ⟨m', pre ++ p :: post', hcoalesce, hheap, ?_, hframe, hcoalesced.grown hne⟩
    obtain ⟨hpre, -, hbefore⟩ := List.pairwise_append.mp hpre
    have hsorted := (List.pairwise_append.mp hheap.freeList.skip.sorted).2.1
    refine List.pairwise_append.mpr ⟨?_, hapart, fun x hx y hy => ?_⟩
    · exact hpre.imp_of_mem fun hx _ hxy => by rwa [hsize _ hx]
    · have hlt : x + (m'.node x).size < p := by
        rw [hsize x hx]
        exact hbefore x hx p List.mem_cons_self
      obtain rfl | hy := List.mem_cons.mp hy
      · exact hlt
      · exact Nat.lt_trans hlt ((List.pairwise_cons.mp hsorted).1 y hy)

theorem Heap.addToFreelist (h : Heap platform m arena free (e :: busy) region)
    (hapart : m.Apart free) (hmagic : (m.node e).magic = magicOf kMagicAllocated e)
    (hparent : (m.node e).arena = some arena) : ∃ m' free',
      m.addToFreelist platform (e + sizeofHeader) arena = some m' ∧
      Heap platform m' arena free' busy region ∧ m'.Apart free' ∧ Frame m m' arena (e :: free) ∧
      Grown m m' (e :: free) free' := by
  have he : e ∉ free := fun hmem => (List.nodup_append.mp h.nodup).2.2 e hmem e (by simp) rfl
  obtain ⟨pre, post, rfl, hpre, hpost⟩ := SkipList.exists_split h.freeList.skip.sorted he
  obtain ⟨m₁, prev, m₂, hassign, hinsert, hprev, hheap₃, hframe₃, hsize₃⟩ :=
    h.enter hpre hpost hparent
  set m₃ := m₂.modifyNode e ({ · with magic := magicOf kMagicUnallocated e })
  obtain ⟨m₄, post₁, hcoalesce₄, hheap₄, hframe₄, hcoalesced₄⟩ := hheap₃.coalesce
  have hapart₃ : m₃.Apart (pre ++ post) := hapart.imp fun hxy => by rwa [hsize₃]
  obtain ⟨hapartPre, hapartPost, -⟩ := List.pairwise_append.mp hapart₃
  have hne : ∀ x ∈ pre ++ post, x ≠ e := fun x hx heq => he (heq ▸ hx)
  have hapart₄ : m₄.Apart pre := by
    refine hapartPre.imp_of_mem fun hx _ hxy => ?_
    rwa [hcoalesced₄.size_eq (hne _ (List.mem_append_left _ hx))]
  obtain ⟨m₅, free', hcoalesce₅, hheap₅, hapart₅, hframe₅, hgrown₅⟩ :=
    hheap₄.coalescePred hapart₄ (hcoalesced₄.apart hheap₃ hapartPost)
  have hadd : m.addToFreelist platform (e + sizeofHeader) arena = some m₅ := by
    obtain ⟨rest, rfl⟩ : ∃ rest, prev = lastOr arena pre :: rest := by
      cases prev with
      | nil => cases hprev
      | cons p rest => exact ⟨rest, by rw [Option.some.inj hprev]⟩
    simp only [Memory.addToFreelist, Nat.add_sub_cancel, platform.check_of hmagic,
      platform.check_of hparent, hassign, hinsert, Option.bind_eq_bind, Option.bind_some]
    change (m₃.coalesce platform e).bind _ = _
    rw [hcoalesce₄]
    exact hcoalesce₅
  have hsub : pre ++ e :: post ⊆ e :: (pre ++ post) := fun x hx =>
    List.mem_cons.mpr (mem_middle hx)
  have hsub₄ : pre ++ e :: post₁ ⊆ e :: (pre ++ post) := by
    intro x hx
    have hpost₁ : x ∈ post₁ → x ∈ post := fun hx => hcoalesced₄.subset hx
    simp only [List.mem_append, List.mem_cons] at hx ⊢
    tauto
  have hframe : Frame m m₄ arena (e :: (pre ++ post)) := (hframe₃.trans hframe₄).mono hsub
  have hgrown₃ : Grown m m₃ (e :: (pre ++ post)) (pre ++ e :: post) := by
    refine .of_size_eq (fun x _ => hsize₃ x) (List.cons_subset.mpr ⟨by simp, ?_⟩)
    exact fun x hx => mem_middle_of_mem hx
  exact ⟨m₅, free', hadd, hheap₅, hapart₅, hframe.trans (hframe₅.mono hsub₄),
    (hgrown₃.trans (hcoalesced₄.grown hne)).trans hgrown₅⟩

end Memory
end CppGuard
