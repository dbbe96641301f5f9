import CppGuard.Library.Transition
import CppGuard.LowLevelAlloc.Alloc
import CppGuard.LowLevelAlloc.Random

/-!
# Runs of one arena

A client allocates blocks of an arena, writes to them and frees them, in any order. At any time its
blocks and the free blocks tile the memory that was mapped for the arena, and a request is served
from the first free block that is large enough.
-/
namespace CppGuard
open LinkedChain Transition

/-- A block that `AllocWithArena` has returned and that has not been freed. -/
structure Block where
  v : Nat
  request : Nat
  deriving DecidableEq

namespace Block

def header (b : Block) : Nat := b.v - sizeofHeader

end Block

namespace Memory

variable {σ : Type} {platform : Platform σ} {m : Memory σ} {arena : Nat} {free busy : List Nat}
  {region : Set Nat} {b : Block}

/-- The client writes to its block: what lies behind the header becomes arbitrary. -/
def write (m : Memory σ) (b : Block) (contents : Nat → AllocList) : Memory σ :=
  { m with node := fun x =>
      if x = b.header then
        { m.node x with levels := (contents x).levels, next := (contents x).next }
      else if b.header < x ∧ x < b.v + b.request then contents x
      else m.node x }

/-- The block begins behind its header and has room for the request. -/
structure Offers (m : Memory σ) (b : Block) : Prop where
  behind : b.v = b.header + sizeofHeader
  fits : b.request + sizeofHeader ≤ (m.node b.header).size

theorem Offers.congr {m' : Memory σ} (h : m.Offers b)
    (hnode : (m'.node b.header).size = (m.node b.header).size) : m'.Offers b :=
  ⟨h.behind, hnode ▸ h.fits⟩

/-- The header of the block stays. -/
theorem write_self (m : Memory σ) (b : Block) (contents : Nat → AllocList) :
    ((m.write b contents).node b.header).header = (m.node b.header).header := by
  simp only [write, if_true]
  rfl

/-- What lies outside of the block stays. -/
theorem Offers.write_other (h : m.Offers b) (contents : Nat → AllocList) {x : Nat}
    (hx : x ∉ extent (m.tile b.header)) : (m.write b contents).node x = m.node x := by
  have hbehind := h.behind
  have hfits := h.fits
  rw [mem_extent, tile] at hx
  simp only at hx
  have hne : x ≠ b.header := by
    rintro rfl
    simp only [sizeofHeader] at hfits
    omega
  have hout : ¬ (b.header < x ∧ x < b.v + b.request) := by omega
  simp only [write, if_neg hne, if_neg hout]

/-- No block loses its header. -/
theorem Heap.write_header (h : Heap platform m arena free busy region)
    (hb : b.header ∈ free ++ busy) (hoffers : m.Offers b) (contents : Nat → AllocList) {x : Nat}
    (hx : x ∈ free ++ busy) :
    ((m.write b contents).node x).header = (m.node x).header := by
  by_cases hxb : x = b.header
  · rw [hxb, write_self]
  · rw [hoffers.write_other contents fun hin => h.notMem_of_inside hb hin hxb hx]

theorem Sound.write (h : Sound platform m arena free busy region) (hb : b.header ∈ busy)
    (hoffers : m.Offers b) (contents : Nat → AllocList) :
    Sound platform (m.write b contents) arena free busy region := by
  have hmem : b.header ∈ free ++ busy := List.mem_append_right _ hb
  have hheader : ∀ x ∈ busy, ((m.write b contents).node x).header = (m.node x).header :=
    fun x hx => h.toHeap.write_header hmem hoffers contents (List.mem_append_right _ hx)
  have hfree : ∀ x ∈ free, (m.write b contents).node x = m.node x := by
    refine fun x hx => hoffers.write_other contents fun hin => ?_
    have hne : x ≠ b.header := (List.nodup_append.mp h.nodup).2.2 x hx b.header hb
    exact h.notMem_of_inside hmem hin hne (List.mem_append_left _ hx)
  have harena : (m.write b contents).node arena = m.node arena :=
    hoffers.write_other contents fun hin =>
      h.arena_notMem (h.tiles.mem_region (List.mem_map_of_mem hmem) hin)
  refine ⟨h.toHeap.congr harena hfree (fun x hx => size_eq_of_header (hheader x hx)) ⟨_, _, rfl⟩,
    ?_, fun x hx => ?_, h.count, h.arena_reserved, h.region_reserved⟩
  · exact h.apart.imp_of_mem fun hx _ hxy => by rwa [hfree _ hx]
  · rw [magic_eq_of_header (hheader x hx), parent_eq_of_header (hheader x hx)]
    exact h.marked x hx

/-- A new arena has no blocks. -/
theorem sound_constructArena (platform : Platform σ) (h : arena ∈ m.reserved platform) :
    Sound platform (m.constructArena platform arena) arena [] [] ∅ := by
  have hnode : (m.constructArena platform arena).node arena =
      { size := 0, magic := magicOf kMagicUnallocated arena, arena := some arena, levels := 0 } :=
    Function.update_self ..
  have harena : (m.constructArena platform arena).arena arena =
      { allocationCount := 0, pagesize := platform.pagesize, roundUp := roundedUpBlockSize
        minSize := 2 * roundedUpBlockSize, random := platform.seed } := Function.update_self ..
  have hbuilt : Built platform (m.constructArena platform arena) arena := by
    refine ⟨?_, ?_, ?_, ?_⟩
    · rw [harena]
    · rw [harena]
      exact roundedUpBlockSize_eq
    · rw [harena, roundedUpBlockSize_eq]
    · rw [hnode]
  refine ⟨⟨hbuilt, ⟨⟨List.Pairwise.nil, List.not_mem_nil, fun i => ?_⟩, nofun, nofun⟩, nofun,
    nofun, nofun, Tiles.nil, Set.notMem_empty _, nofun⟩, List.Pairwise.nil, nofun, ?_, h,
    Set.empty_subset _⟩
  · exact congrArg (fun b => b.next i) hnode
  · rw [harena]
    rfl

end Memory

/-- An arena in use. -/
structure ArenaUse (σ : Type) where
  memory : Memory σ
  live : List Block
  /-- The runs that were mapped for the arena. -/
  mapped : List (Nat × Nat)

namespace ArenaUse

inductive Call where
  /-- `pages` are the answers of the system. -/
  | allocWithArena (request : Nat) (pages : List Nat)
  | free (b : Block)
  | write (b : Block) (contents : Nat → AllocList)

variable {σ : Type} (platform : Platform σ) (arena : Nat)

def initial (m : Memory σ) : ArenaUse σ := ⟨m.constructArena platform arena, [], []⟩

def step (s : ArenaUse σ) : Call → Option (ArenaUse σ)
  | .allocWithArena request pages => do
    match ← s.memory.allocWithArena platform request arena pages with
    | (none, _, memory) => return { s with memory }
    | (some v, runs, memory) => return ⟨memory, ⟨v, request⟩ :: s.live, runs ++ s.mapped⟩
  | .free b =>
    if b ∈ s.live then do
      let memory ← s.memory.free platform b.v
      return { s with memory, live := s.live.erase b }
    else none
  | .write b contents =>
    if b ∈ s.live then some { s with memory := s.memory.write b contents } else none

/-! ## The invariant -/

/-- Where the allocated blocks begin. -/
def busy (s : ArenaUse σ) : List Nat := s.live.map Block.header

structure Inv (s : ArenaUse σ) (free : List Nat) : Prop where
  sound : Memory.Sound platform s.memory arena free s.busy (covered s.mapped)
  offers : ∀ b ∈ s.live, s.memory.Offers b

variable {platform arena} {m : Memory σ} {s t : ArenaUse σ} {c : Call} {calls : List Call}
  {free : List Nat}

theorem inv_initial (h : arena ∈ m.reserved platform) :
    Inv platform arena (initial platform arena m) [] :=
  ⟨by simpa [initial, busy] using Memory.sound_constructArena platform h, nofun⟩

theorem Inv.allocWithArena (h : Inv platform arena s free) {request : Nat} {pages : List Nat}
    (hstep : step platform arena s (.allocWithArena request pages) = some t) :
    ∃ free', Inv platform arena t free' := by
  simp only [step, Option.bind_eq_bind, Option.bind_eq_some_iff] at hstep
  obtain ⟨⟨v, runs, memory⟩, hcall, hstep⟩ := hstep
  obtain rfl | hrequest := Nat.eq_zero_or_pos request
  · -- nothing is allocated
    simp only [Memory.allocWithArena, if_true, Option.bind_eq_bind,
      Option.bind_eq_some_iff] at hcall
    obtain ⟨-, -, hcall⟩ := hcall
    cases hcall
    cases hstep
    exact ⟨free, h⟩
  · obtain ⟨a, r, free', rfl, -, hsound, hfits, hkept, -⟩ := h.sound.alloc hrequest hcall
    cases hstep
    have hheader : Block.header ⟨a + sizeofHeader, request⟩ = a := Nat.add_sub_cancel ..
    refine ⟨free', ?_, List.forall_mem_cons.mpr ⟨⟨?_, ?_⟩, fun b hb => ?_⟩⟩
    · rw [covered_append, busy, List.map_cons, hheader]
      exact hsound
    · rw [hheader]
    · rw [hheader]
      exact hfits
    · refine (h.offers b hb).congr ?_
      rw [hkept.busy b.header (List.mem_map_of_mem hb)]

theorem Inv.release (h : Inv platform arena s free) {b : Block}
    (hstep : step platform arena s (.free b) = some t) :
    ∃ free', Inv platform arena t free' := by
  simp only [step] at hstep
  split_ifs at hstep with hb
  have hperm : s.live.Perm (b :: s.live.erase b) := List.perm_cons_erase hb
  obtain ⟨memory, free', hfree, hsound, hkept, -⟩ :=
    (h.sound.perm (hperm.map Block.header)).release
  rw [← (h.offers b hb).behind] at hfree
  simp only [hfree, Option.bind_eq_bind, Option.bind_eq_some_iff, Option.map_eq_some_iff] at hstep
  obtain ⟨_, ⟨-, -, rfl⟩, hstep⟩ := hstep
  cases hstep
  refine ⟨free', hsound, fun b' hb' => (h.offers b' (List.mem_of_mem_erase hb')).congr ?_⟩
  rw [hkept.busy b'.header (List.mem_map_of_mem hb')]

theorem Inv.write (h : Inv platform arena s free) {b : Block} {contents : Nat → AllocList}
    (hstep : step platform arena s (.write b contents) = some t) :
    ∃ free', Inv platform arena t free' := by
  simp only [step] at hstep
  split_ifs at hstep with hb
  cases hstep
  have hoffers := h.offers b hb
  have hbusy : b.header ∈ s.busy := List.mem_map_of_mem hb
  refine ⟨free, h.sound.write hbusy hoffers contents, fun b' hb' => (h.offers b' hb').congr ?_⟩
  have hbusy' : b'.header ∈ s.busy := List.mem_map_of_mem hb'
  exact Memory.size_eq_of_header (h.sound.toHeap.write_header (List.mem_append_right _ hbusy)
    hoffers contents (List.mem_append_right _ hbusy'))

theorem Inv.step (h : Inv platform arena s free) (hstep : step platform arena s c = some t) :
    ∃ free', Inv platform arena t free' := by
  cases c with
  | allocWithArena request pages => exact h.allocWithArena hstep
  | free b => exact h.release hstep
  | write b contents => exact h.write hstep

theorem inv_exec (h : arena ∈ m.reserved platform)
    (hrun : exec (step platform arena) (initial platform arena m) calls = some s) :
    ∃ free, Inv platform arena s free :=
  exec_invariant (P := fun s => ∃ free, Inv platform arena s free)
    (fun _ _ _ hs hstep => Exists.elim hs fun _ hinv => hinv.step hstep) ⟨[], inv_initial h⟩ hrun

/-! ## The blocks after a run -/

/-- The live blocks and the free blocks `free`, as the memory has them. -/
structure Intact (s : ArenaUse σ) (arena : Nat) (free : List Nat) : Prop where
  /-- No two blocks overlap, and together they are the memory that was mapped. -/
  tiles : Tiles ((free ++ s.busy).map s.memory.tile) (covered s.mapped)
  offers : ∀ b ∈ s.live, s.memory.Offers b
  /-- Level 0 links the free blocks. -/
  linked : Chain (fun x => (s.memory.node x).next 0) ((s.memory.node arena).next 0) free
  /-- They are in the order of their addresses, and none touches the next one. -/
  apart : free.Pairwise fun x y => x + (s.memory.node x).size < y
  /-- A higher level links the blocks with more levels. -/
  levels : ∀ i, Chain (fun x => (s.memory.node x).next i) ((s.memory.node arena).next i)
    (free.filter fun x => i < (s.memory.node x).levels)
  count : (s.memory.arena arena).allocationCount = Int.bmod s.live.length (2 ^ 32)

theorem Inv.intact (h : Inv platform arena s free) : s.Intact arena free where
  tiles := h.sound.tiles
  offers := h.offers
  linked := h.sound.freeList.chain_zero
  apart := h.sound.apart
  levels := h.sound.freeList.skip.chain
  count := by
    rw [h.sound.count, busy, List.length_map]

theorem bmod_of_lt {n : Nat} (h : n < 2 ^ 31) : Int.bmod n (2 ^ 32) = n :=
  Int.bmod_eq_of_le (by omega) (by omega)

/-- The heap is intact after every run, and the count is that of the live blocks as long as it fits
an `int32_t`. -/
theorem exec_intact (h : arena ∈ m.reserved platform)
    (hrun : exec (step platform arena) (initial platform arena m) calls = some s) :
    ∃ free, s.Intact arena free ∧
      (s.live.length < 2 ^ 31 → (s.memory.arena arena).allocationCount = s.live.length) := by
  obtain ⟨free, hinv⟩ := inv_exec h hrun
  exact ⟨free, hinv.intact, fun hlt => hinv.intact.count.trans (bmod_of_lt hlt)⟩

theorem storage_mem_reserved (platform : Platform σ) (m : Memory σ) :
    platform.storage ∈ m.reserved platform :=
  Or.inl ⟨Nat.le_refl _, Nat.lt_add_of_pos_right (by decide : 0 < sizeofArena)⟩

/-- Pages of 4096 bytes, and an arena at the address 4096. -/
def samplePlatform : Platform Nat := .standard 4096 ⟨12, by decide, rfl⟩ 4096 true

def sampleMemory : Memory Nat := ⟨fun _ => {}, fun _ => ⟨0, 0, 0, 0, 0⟩, []⟩

/-- The first block is split off the new pages, and freed behind a second one. -/
def sampleCalls : List Call :=
  [.allocWithArena 100 [65536], .allocWithArena 40 [], .free ⟨65568, 100⟩,
    .allocWithArena 70000 [131072]]

theorem exec_intact_sample : ∃ s, exec (step samplePlatform 4096)
    (initial samplePlatform 4096 sampleMemory) sampleCalls = some s ∧
    s.live = [⟨65824, 70000⟩, ⟨65728, 40⟩] ∧
    ∃ free, s.Intact 4096 free ∧
      (s.live.length < 2 ^ 31 → (s.memory.arena 4096).allocationCount = s.live.length) := by
  obtain ⟨s, hrun, hlive⟩ : ∃ s, exec (step samplePlatform 4096)
      (initial samplePlatform 4096 sampleMemory) sampleCalls = some s ∧
      s.live = [⟨65824, 70000⟩, ⟨65728, 40⟩] := exists_exec (by decide +kernel)
  exact ⟨s, hrun, hlive, exec_intact (storage_mem_reserved samplePlatform sampleMemory) hrun⟩

/-- Small requests, and for each of them fresh pages, should it need some. -/
def manyCalls (n : Nat) : List Call :=
  (List.range n).map fun i => .allocWithArena 32 [65536 * (i + 1)]

theorem exec_manyCalls {n : Nat} (hn : n ≤ 2 ^ 31) : ∃ s, exec (step samplePlatform 4096)
    (initial samplePlatform 4096 sampleMemory) (manyCalls n) = some s ∧ s.live.length = n ∧
    ∀ run ∈ s.memory.runs, run.1 + run.2 ≤ 65536 * (n + 1) := by
  induction n with
  | zero => exact ⟨_, rfl, rfl, fun _ hrun => by cases hrun⟩
  | succ n ih =>
    obtain ⟨s, hrun, hlength, hruns⟩ := ih (Nat.le_of_succ_le hn)
    obtain ⟨free, hinv⟩ := inv_exec (storage_mem_reserved samplePlatform sampleMemory) hrun
    have hr : s.memory.roundedSize 4096 32 = some 64 := by
      have hround : (s.memory.arena 4096).roundUp = 32 := hinv.sound.roundUp
      rw [Memory.roundedSize, hround]
      decide
    have hsize : CppGuard.roundUp 64 (samplePlatform.pagesize * 16) = some 65536 := by decide
    have hfresh : s.memory.FreshPages samplePlatform (65536 * (n + 1)) 65536 := by
      refine ⟨by omega, ?_, by omega, Or.inr ?_, fun run hrun => Or.inr (hruns run hrun)⟩
      · change 65536 * (n + 1) % 4096 = 0
        omega
      · change 4096 + 320 ≤ 65536 * (n + 1)
        omega
    obtain ⟨v, runs, memory, hcall, hnew⟩ : ∃ v runs memory, s.memory.allocWithArena samplePlatform
        32 4096 [65536 * (n + 1)] = some (some v, runs, memory) ∧
        ∀ run ∈ runs, run = (65536 * (n + 1), 65536) := by
      cases hfind : free.find? (s.memory.fits 64) with
      | some a =>
        obtain ⟨memory, hcall⟩ := hinv.sound.alloc_returns (by decide) (by decide) hr (by decide)
          hfind [65536 * (n + 1)]
        exact ⟨_, [], memory, hcall, fun _ hrun => by cases hrun⟩
      | none =>
        obtain ⟨a, memory, hcall⟩ := hinv.sound.alloc_returns_mapped (by decide) (by decide) hr
          (by decide) hfind hsize hfresh []
        exact ⟨_, _, memory, hcall, fun run hrun => List.mem_singleton.mp hrun⟩
    obtain ⟨-, -, -, -, -, -, -, -, hmapped, -⟩ := hinv.sound.alloc (by decide) hcall
    refine ⟨⟨memory, ⟨v, 32⟩ :: s.live, runs ++ s.mapped⟩, ?_, by rw [List.length_cons, hlength],
      fun run hrun => ?_⟩
    · rw [manyCalls, List.range_succ, List.map_append]
      refine exec_concat.mpr ⟨s, hrun, ?_⟩
      simp only [step, hcall, Option.bind_eq_bind, Option.bind_some, Option.pure_def]
    · rw [hmapped] at hrun
      obtain hrun | hrun := List.mem_append.mp hrun
      · rw [hnew run hrun]
        simp only
        omega
      · have := hruns run hrun
        omega

/-- The count is wrong when it does not fit. -/
theorem count_overflows : ∃ s, exec (step samplePlatform 4096)
    (initial samplePlatform 4096 sampleMemory) (manyCalls (2 ^ 31)) = some s ∧
    s.live.length = 2 ^ 31 ∧ (s.memory.arena 4096).allocationCount ≠ s.live.length := by
  obtain ⟨s, hrun, hlength, -⟩ := exec_manyCalls (Nat.le_refl (2 ^ 31))
  obtain ⟨free, hinv⟩ := inv_exec (storage_mem_reserved samplePlatform sampleMemory) hrun
  have hcount : (s.memory.arena 4096).allocationCount = Int.bmod s.live.length (2 ^ 32) :=
    hinv.intact.count
  refine ⟨s, hrun, hlength, ?_⟩
  rw [hcount, hlength]
  decide

/-! ## First fit -/

/-- How a request for a block of `r` bytes is served, if the free blocks are `free`. -/
structure FirstFit (platform : Platform σ) (arena : Nat) (s : ArenaUse σ) (request r : Nat)
    (free : List Nat) : Prop where
  linked : Chain (fun x => (s.memory.node x).next 0) ((s.memory.node arena).next 0) free
  /-- A block that is large enough is linked on the level of the search. -/
  level : ∀ levels, platform.skiplistLevels r (s.memory.arena arena).minSize 1 = some levels →
    ∀ x ∈ free, r ≤ (s.memory.node x).size → levels - 1 < (s.memory.node x).levels
  /-- Without new pages the block is the first one that is large enough. Pages are mapped once at
  most, and only if every free block is too small. -/
  serves : ∀ pages v runs m',
    s.memory.allocWithArena platform request arena pages = some (v, runs, m') →
      (runs = [] ∧ ∃ x ∈ free, v = some (x + sizeofHeader) ∧ r ≤ (s.memory.node x).size ∧
        ∀ y ∈ free, r ≤ (s.memory.node y).size → x ≤ y) ∨
      ((∃ run, runs = [run]) ∧ ∀ x ∈ free, (s.memory.node x).size < r)
  /-- The call returns if a block is large enough. -/
  returns : r + (s.memory.arena arena).minSize < 2 ^ 64 →
    (∃ x ∈ free, r ≤ (s.memory.node x).size) →
    ∀ pages, ∃ v m', s.memory.allocWithArena platform request arena pages = some (some v, [], m')
  /-- Otherwise one run of new pages is enough. -/
  returns_mapped : r + (s.memory.arena arena).minSize < 2 ^ 64 →
    (∀ x ∈ free, (s.memory.node x).size < r) →
    ∀ size p, CppGuard.roundUp r (platform.pagesize * 16) = some size →
      s.memory.FreshPages platform p size →
      ∀ pages, ∃ v m', s.memory.allocWithArena platform request arena (p :: pages) =
        some (some v, [(p, size)], m')

/-- The first block of an ordered list that is large enough. -/
theorem find?_fits {x r : Nat} (hsorted : free.Pairwise (· < ·))
    (h : free.find? (m.fits r) = some x) : x ∈ free ∧ r ≤ (m.node x).size ∧
      ∀ y ∈ free, r ≤ (m.node y).size → x ≤ y := by
  obtain ⟨hfits, pre, post, rfl, hpre⟩ := List.find?_eq_some_iff_append.mp h
  refine ⟨by simp, of_decide_eq_true hfits, fun y hy hle => ?_⟩
  obtain hy | hy := List.mem_append.mp hy
  · have hsmall := hpre y hy
    simp only [Memory.fits, hle, decide_true, Bool.not_true, Bool.false_eq_true] at hsmall
  · obtain rfl | hy := List.mem_cons.mp hy
    · exact Nat.le_refl _
    · have hpost := (List.pairwise_cons.mp (List.pairwise_append.mp hsorted).2.1).1
      exact Nat.le_of_lt (hpost y hy)

theorem find?_fits_eq_none {r : Nat} :
    free.find? (m.fits r) = none ↔ ∀ x ∈ free, (m.node x).size < r := by
  rw [List.find?_eq_none]
  simp [Memory.fits]

theorem Inv.firstFit (h : Inv platform arena s free) (harena : arena ≠ 0) {request r : Nat}
    (hrequest : 0 < request) (hr : s.memory.roundedSize arena request = some r) :
    FirstFit platform arena s request r free := by
  have hmin := h.sound.minSize
  have hsorted := h.sound.freeList.skip.sorted
  obtain ⟨-, h64⟩ := Memory.roundedSize_eq_some h.sound.roundUp hrequest hr
  refine ⟨h.sound.freeList.chain_zero, fun levels hlevels x hx hle => ?_,
    fun pages v runs m' hcall => ?_, fun hlt hfit pages => ?_,
    fun hlt hnone size p hsize hfresh pages => ?_⟩
  · rw [hmin, platform.skiplistLevels_eq h64 (Nat.le_refl 1)] at hlevels
    obtain rfl := Option.some.inj hlevels
    have hpos := levelsOf_pos h64 (Nat.le_refl 1)
    have hlinked := h.sound.linked hx (decide_eq_true hle)
    omega
  · obtain ⟨x, r', -, rfl, hr', -, -, -, -, -, hfirst⟩ := h.sound.alloc hrequest hcall
    obtain rfl : r' = r := Option.some.inj (hr'.symm.trans hr)
    obtain ⟨hruns, hfind⟩ | ⟨hnone, hruns⟩ := hfirst
    · obtain ⟨hx, hle, hleast⟩ := find?_fits hsorted hfind
      exact Or.inl ⟨hruns, x, hx, rfl, hle, hleast⟩
    · exact Or.inr ⟨hruns, find?_fits_eq_none.mp hnone⟩
  · rw [hmin] at hlt
    obtain ⟨x, hx, hle⟩ := hfit
    obtain ⟨y, hfind⟩ := Memory.find?_isSome hx (decide_eq_true hle : s.memory.fits r x = true)
    obtain ⟨m', hcall⟩ := h.sound.alloc_returns hrequest harena hr hlt hfind pages
    exact ⟨_, m', hcall⟩
  · rw [hmin] at hlt
    obtain ⟨y, m', hcall⟩ := h.sound.alloc_returns_mapped hrequest harena hr hlt
      (find?_fits_eq_none.mpr hnone) hsize hfresh pages
    exact ⟨_, m', hcall⟩

/-- In every state of a run the search finds the first free block that is large enough. -/
theorem exec_firstFit (h : arena ∈ m.reserved platform) (harena : arena ≠ 0)
    (hrun : exec (step platform arena) (initial platform arena m) calls = some s)
    {request r : Nat} (hrequest : 0 < request)
    (hr : s.memory.roundedSize arena request = some r) :
    ∃ free, s.Intact arena free ∧ FirstFit platform arena s request r free := by
  obtain ⟨free, hinv⟩ := inv_exec h hrun
  exact ⟨free, hinv.intact, hinv.firstFit harena hrequest hr⟩

theorem exec_firstFit_sample : ∃ s, exec (step samplePlatform 4096)
    (initial samplePlatform 4096 sampleMemory) sampleCalls = some s ∧
    s.memory.roundedSize 4096 5000 = some 5056 ∧
    ∃ free, s.Intact 4096 free ∧ FirstFit samplePlatform 4096 s 5000 5056 free := by
  obtain ⟨s, hrun, hr⟩ : ∃ s, exec (step samplePlatform 4096)
      (initial samplePlatform 4096 sampleMemory) sampleCalls = some s ∧
      s.memory.roundedSize 4096 5000 = some 5056 := exists_exec (by decide +kernel)
  exact ⟨s, hrun, hr, exec_firstFit (storage_mem_reserved samplePlatform sampleMemory)
    (by decide) hrun (by decide) hr⟩

end ArenaUse
end CppGuard
