import CppGuard.LowLevelAlloc.NewArena

/-!
# The default arena over a run

Runs that create and delete arenas and use them. Every call of `UnhookedArena` constructs the
default arena once more, so it forgets its blocks. The accounting is right in a run if and only if
no arena is created after the first one, and none is deleted in a build with assertions.
-/
namespace CppGuard
open LinkedChain Transition Memory

/-- Arenas in use. -/
structure Arenas (σ : Type) where
  memory : Memory σ
  /-- Those that have been created and not deleted. -/
  arenas : List Nat
  /-- The blocks that have been allocated and not freed, each with its arena. -/
  live : List (Nat × Block)
  /-- The runs that were mapped for the default arena. -/
  mapped : List (Nat × Nat)
  /-- How many arenas have been created. -/
  created : Nat
  /-- An assertion of `Free` or `DeleteArena` has failed. -/
  aborted : Bool

namespace Arenas

inductive Call where
  /-- `pages` are the answers of the system. -/
  | newArena (pages : List Nat)
  | allocWithArena (request arena : Nat) (pages : List Nat)
  | free (arena : Nat) (b : Block)
  | deleteArena (arena : Nat)
  | write (arena : Nat) (b : Block) (contents : Nat → AllocList)

variable {σ : Type} (platform : Platform σ)

def blocks (s : Arenas σ) (arena : Nat) : List (Nat × Block) := s.live.filter (·.1 = arena)

/-- The static storage of the default arena is zero. -/
def initial (m : Memory σ) : Arenas σ where
  memory :=
    { node := Function.update m.node platform.storage {}
      arena := Function.update m.arena platform.storage ⟨0, 0, 0, 0, platform.seed⟩ }
  arenas := []
  live := []
  mapped := []
  created := 0
  aborted := false

/-- A call that does not return aborts the run if it is `Free` or `DeleteArena`; the others are
possible only if they return. -/
def perform (s : Arenas σ) : Call → Option (Arenas σ)
  | .newArena pages => do
    let (arena, runs, memory) ← s.memory.newArena platform pages
    return { s with
      memory, arenas := arena :: s.arenas, mapped := runs ++ s.mapped, created := s.created + 1 }
  | .allocWithArena request arena pages =>
    if arena ∈ s.arenas then do
      match ← s.memory.allocWithArena platform request arena pages with
      | (none, _, memory) => return { s with memory }
      | (some v, _, memory) => return { s with memory, live := (arena, ⟨v, request⟩) :: s.live }
    else none
  | .free arena b =>
    if (arena, b) ∈ s.live then
      match s.memory.free platform b.v with
      | none => some { s with aborted := true }
      | some memory => some { s with memory, live := s.live.erase (arena, b) }
    else none
  | .deleteArena arena =>
    -- only when empty
    if arena ∈ s.arenas ∧ s.blocks arena = [] then
      match s.memory.deleteArena platform arena with
      | none => some { s with aborted := true }
      | some (deleted, memory) =>
        some { s with memory, arenas := if deleted then s.arenas.erase arena else s.arenas }
    else none
  | .write arena b contents =>
    if (arena, b) ∈ s.live then some { s with memory := s.memory.write b contents } else none

def step (s : Arenas σ) (c : Call) : Option (Arenas σ) :=
  if s.aborted then none else s.perform platform c

/-- What the default arena is to keep. -/
structure Accounted (s : Arenas σ) : Prop where
  running : s.aborted = false
  count : (s.memory.arena platform.storage).allocationCount = s.arenas.length
  /-- The free list and the metadata of the arenas are all of the mapped memory. -/
  unallocated : ∃ free,
    Chain (fun x => (s.memory.node x).next 0) ((s.memory.node platform.storage).next 0) free ∧
    Tiles ((free ++ s.arenas.map fun a => (metadata a).header).map s.memory.tile)
      (covered s.mapped)

/-- A call that the default arena survives: no second arena is created, and in a build with
assertions no arena is deleted, and no block is freed if the count of its arena is not positive,
because it does not fit an `int32_t`. -/
def Orderly (s : Arenas σ) : Call → Prop
  | .newArena _ => s.created = 0
  | .free arena _ =>
    platform.assertions = true → 0 < Int.bmod (s.blocks arena).length (2 ^ 32)
  | .deleteArena _ => platform.assertions = false
  | _ => True

/-! ## The invariant -/

/-- The default arena and at most one more, which has its memory to itself. -/
structure Managed (s : Arenas σ) (free : List Nat) : Prop where
  default : Sound platform s.memory platform.storage free
    (s.arenas.map fun a => (metadata a).header) (covered s.mapped)
  metadata : ∀ a ∈ s.arenas, s.memory.Offers (metadata a)
  alone : s.arenas.length ≤ 1
  owned : ∀ p ∈ s.live, p.1 ∈ s.arenas ∧ s.memory.Offers p.2
  tenant : ∀ a ∈ s.arenas, ∃ free region,
    Sound platform s.memory a free ((s.blocks a).map fun p => p.2.header) region ∧
    Disjoint region (covered s.mapped) ∧ platform.storage ∉ region
  mapped : (covered s.mapped).Nonempty

/-- No arena has been created. -/
structure Fresh (s : Arenas σ) : Prop where
  arenas : s.arenas = []
  live : s.live = []
  mapped : s.mapped = []
  count : (s.memory.arena platform.storage).allocationCount = 0
  empty : (s.memory.node platform.storage).next 0 = none

structure Inv (s : Arenas σ) : Prop where
  running : s.aborted = false
  stage : s.created = 0 ∧ Fresh platform s ∨ s.created ≠ 0 ∧ ∃ free, Managed platform s free

variable {platform} {s t : Arenas σ} {m : Memory σ} {a : Nat} {free : List Nat}
  {calls : List Call} {c : Call}

theorem inv_initial (m : Memory σ) : Inv platform (initial platform m) := by
  have hnode : (initial platform m).memory.node platform.storage = {} := Function.update_self ..
  have harena : (initial platform m).memory.arena platform.storage = ⟨0, 0, 0, 0, platform.seed⟩ :=
    Function.update_self ..
  refine ⟨rfl, Or.inl ⟨rfl, rfl, rfl, rfl, ?_, ?_⟩⟩
  · rw [harena]
  · rw [hnode]

theorem Managed.accounted (h : Managed platform s free) (hrunning : s.aborted = false) :
    Accounted platform s where
  running := hrunning
  count := by
    rw [h.default.count, List.length_map]
    exact ArenaUse.bmod_of_lt (Nat.lt_of_le_of_lt h.alone (by decide))
  unallocated := ⟨free, h.default.freeList.chain_zero, h.default.tiles⟩

theorem Inv.accounted (h : Inv platform s) : Accounted platform s := by
  obtain ⟨hrunning, ⟨-, hfresh⟩ | ⟨-, free, hmanaged⟩⟩ := h
  · refine ⟨hrunning, ?_, [], hfresh.empty, ?_⟩
    · rw [hfresh.count, hfresh.arenas]
      rfl
    · rw [hfresh.arenas, hfresh.mapped, covered_nil]
      exact Tiles.nil
  · exact hmanaged.accounted hrunning

theorem Managed.eq_singleton (h : Managed platform s free) (ha : a ∈ s.arenas) :
    s.arenas = [a] := by
  obtain ⟨b, hb⟩ := List.length_eq_one_iff.mp
    (Nat.le_antisymm h.alone (List.length_pos_of_mem ha))
  rw [hb] at ha ⊢
  rw [List.mem_singleton.mp ha]

/-- The arena is none of the blocks of the default arena. -/
theorem Managed.notMem (h : Managed platform s free) (ha : a ∈ s.arenas) : a ∈ covered s.mapped ∧
    a ∉ free ++ s.arenas.map fun a => (Memory.metadata a).header :=
  h.default.toHeap.metadata_notMem (h.metadata a ha)
    (List.mem_append_right _ (List.mem_map_of_mem ha))

theorem Managed.ne_storage (h : Managed platform s free) (ha : a ∈ s.arenas) :
    a ≠ platform.storage := fun heq => h.default.arena_notMem (heq ▸ (h.notMem ha).1)

/-- What happens to the other arena does not concern the default arena. -/
theorem Managed.tenant_step (h : Managed platform s free) (ha : a ∈ s.arenas) {m' : Memory σ}
    {live : List (Nat × Block)} {free' : List Nat} {region : Set Nat}
    (hsound : Sound platform m' a free'
      ((live.filter (·.1 = a)).map fun p => p.2.header) region)
    (hdisjoint : Disjoint region (covered s.mapped)) (hstorage : platform.storage ∉ region)
    (hnode : ∀ x, x ≠ a → x ∉ region → m'.node x = s.memory.node x)
    (harena : ∀ b, b ≠ a → m'.arena b = s.memory.arena b)
    (hreserved : s.memory.reserved platform ⊆ m'.reserved platform)
    (howned : ∀ p ∈ live, p.1 = a ∧ m'.Offers p.2) :
    Managed platform { s with memory := m', live } free := by
  have hsingle := h.eq_singleton ha
  have hne := h.ne_storage ha
  have hblock : ∀ x ∈ free ++ s.arenas.map fun a => (Memory.metadata a).header,
      m'.node x = s.memory.node x := by
    intro x hx
    refine hnode x ?_ fun hin => ?_
    · rintro rfl
      exact (h.notMem ha).2 hx
    · exact Set.disjoint_left.mp hdisjoint hin (h.default.mem_region hx)
  refine ⟨?_, fun b hb => ?_, h.alone, fun p hp => ?_, fun b hb => ?_, h.mapped⟩
  · refine h.default.other ?_ (harena _ hne.symm) (hreserved h.default.arena_reserved)
      (h.default.region_reserved.trans hreserved)
    rintro x (rfl | hx)
    · exact hnode _ hne.symm hstorage
    · exact hblock x hx
  · refine (h.metadata b hb).congr ?_
    rw [hblock _ (List.mem_append_right _ (List.mem_map_of_mem hb))]
  · obtain ⟨hp, hoffers⟩ := howned p hp
    exact ⟨hp ▸ ha, hoffers⟩
  · have hb : b ∈ s.arenas := hb
    rw [hsingle] at hb
    obtain rfl := List.mem_singleton.mp hb
    exact ⟨free', region, hsound, hdisjoint, hstorage⟩

/-! ## Orderly calls -/

/-- The first arena is the only one. -/
theorem Fresh.newArena (h : Fresh platform s) {pages : List Nat}
    (hstep : s.perform platform (.newArena pages) = some t) :
    t.created = s.created + 1 ∧ t.aborted = s.aborted ∧ ∃ free, Managed platform t free := by
  simp only [perform, Option.bind_eq_bind, Option.bind_eq_some_iff, Option.pure_def,
    Option.some.injEq] at hstep
  obtain ⟨⟨a, runs, memory⟩, hcall, rfl⟩ := hstep
  obtain ⟨free, run, rfl, hdefault, hoffers, htenant, -, -⟩ := newArena_spec hcall
  refine ⟨rfl, rfl, free, ?_⟩
  simp only [h.arenas, h.live, h.mapped]
  refine ⟨?_, fun b hb => ?_, Nat.le_refl 1, nofun, fun b hb => ?_, ?_⟩
  · simpa using hdefault
  · obtain rfl := List.mem_singleton.mp hb
    exact hoffers
  · obtain rfl := List.mem_singleton.mp hb
    exact ⟨[], ∅, htenant, Set.empty_disjoint _, Set.notMem_empty _⟩
  · refine ⟨(Memory.metadata a).header, ?_⟩
    simpa using hdefault.mem_region (by simp : (Memory.metadata a).header ∈ free ++ [_])

theorem Managed.owned_eq (h : Managed platform s free) (ha : a ∈ s.arenas) {p : Nat × Block}
    (hp : p ∈ s.live) : p.1 = a := by
  have hmem := (h.owned p hp).1
  rw [h.eq_singleton ha] at hmem
  exact List.mem_singleton.mp hmem

theorem Managed.allocWithArena (h : Managed platform s free) {request : Nat} {pages : List Nat}
    (hstep : s.perform platform (.allocWithArena request a pages) = some t) :
    t.created = s.created ∧ t.aborted = s.aborted ∧ ∃ free, Managed platform t free := by
  simp only [perform] at hstep
  split_ifs at hstep with ha
  simp only [Option.bind_eq_bind, Option.bind_eq_some_iff] at hstep
  obtain ⟨⟨v, runs, memory⟩, hcall, hstep⟩ := hstep
  obtain rfl | hrequest := Nat.eq_zero_or_pos request
  · -- nothing is allocated
    simp only [Memory.allocWithArena, if_true, Option.bind_eq_bind, Option.bind_eq_some_iff]
      at hcall
    obtain ⟨-, -, hcall⟩ := hcall
    cases hcall
    cases hstep
    exact ⟨rfl, rfl, free, h⟩
  · obtain ⟨free', region, htenant, hdisjoint, hstorage⟩ := h.tenant a ha
    obtain ⟨e, r, free₁, rfl, -, hsound, hfits, hkept, hruns, hfresh, -⟩ :=
      htenant.alloc hrequest hcall
    cases hstep
    have hheader : Block.header ⟨e + sizeofHeader, request⟩ = e := Nat.add_sub_cancel ..
    have hsound' : Sound platform memory a free₁
        ((((a, (⟨e + sizeofHeader, request⟩ : Block)) :: s.live).filter (·.1 = a)).map
          fun p => p.2.header) (covered runs ∪ region) := by
      rw [List.filter_cons_of_pos (by simp), List.map_cons, hheader]
      exact hsound
    refine ⟨rfl, rfl, free, h.tenant_step ha hsound' ?_ ?_
      hkept.outside hkept.arenas (reserved_mono (hruns ▸ List.subset_append_right _ _)) ?_⟩
    · refine Set.disjoint_union_left.mpr ⟨?_, hdisjoint⟩
      exact hfresh.mono_right h.default.region_reserved
    · rintro (hin | hin)
      · exact Set.disjoint_left.mp hfresh hin h.default.arena_reserved
      · exact hstorage hin
    · refine List.forall_mem_cons.mpr ⟨⟨rfl, ⟨by rw [hheader], by rwa [hheader]⟩⟩, fun p hp => ?_⟩
      have hpa := h.owned_eq ha hp
      refine ⟨hpa, (h.owned p hp).2.congr ?_⟩
      have hblock : p ∈ s.blocks a := List.mem_filter.mpr ⟨hp, decide_eq_true hpa⟩
      rw [hkept.busy p.2.header (List.mem_map_of_mem (f := fun p => p.2.header) hblock)]

/-- If the count is positive or nothing is asserted, `Free` returns. -/
theorem Managed.release (h : Managed platform s free) {b : Block}
    (hstep : s.perform platform (.free a b) = some t) :
    if platform.assertions = true ∧ ¬ 0 < Int.bmod (s.blocks a).length (2 ^ 32) then
      t.aborted = true
    else t.created = s.created ∧ t.aborted = s.aborted ∧ ∃ free, Managed platform t free := by
  simp only [perform] at hstep
  split_ifs at hstep with hb
  have ha : a ∈ s.arenas := (h.owned _ hb).1
  obtain ⟨free', region, htenant, hdisjoint, hstorage⟩ := h.tenant a ha
  have hcount := htenant.count
  rw [List.length_map] at hcount
  have hperm : (s.blocks a).Perm ((a, b) :: (s.live.erase (a, b)).filter (·.1 = a)) := by
    have hblocks := (List.perm_cons_erase hb).filter (·.1 = a)
    rwa [List.filter_cons_of_pos (by simp)] at hblocks
  obtain ⟨memory, free₁, hfree, hsound, hkept, hruns⟩ :=
    (htenant.perm (hperm.map fun p => p.2.header)).release
  rw [← (h.owned _ hb).2.behind, hcount] at hfree
  split_ifs with hfails
  · rw [Platform.check, if_pos hfails] at hfree
    simp only [hfree, Option.map_none] at hstep
    cases hstep
    rfl
  · rw [Platform.check, if_neg hfails] at hfree
    simp only [hfree, Option.map_some] at hstep
    cases hstep
    refine ⟨rfl, rfl, free, h.tenant_step ha hsound hdisjoint hstorage hkept.outside hkept.arenas
      (reserved_congr hruns).ge fun p hp => ?_⟩
    have hlive := List.mem_of_mem_erase hp
    have hpa := h.owned_eq ha hlive
    refine ⟨hpa, (h.owned p hlive).2.congr ?_⟩
    have hblock : p ∈ (s.live.erase (a, b)).filter (·.1 = a) :=
      List.mem_filter.mpr ⟨hp, decide_eq_true hpa⟩
    rw [hkept.busy p.2.header (List.mem_map_of_mem (f := fun p => p.2.header) hblock)]

/-- Without assertions `DeleteArena` returns, with them it does not. -/
theorem Managed.deleteArena (h : Managed platform s free)
    (hstep : s.perform platform (.deleteArena a) = some t) :
    if platform.assertions = true then t.aborted = true
    else t.created = s.created ∧ t.aborted = s.aborted ∧ ∃ free, Managed platform t free := by
  simp only [perform] at hstep
  split_ifs at hstep with hdelete
  obtain ⟨ha, hempty⟩ := hdelete
  have hoffers := h.metadata a ha
  have hsingle := h.eq_singleton ha
  obtain ⟨free', region, htenant, hdisjoint, -⟩ := h.tenant a ha
  rw [hempty] at htenant
  have hdefault := h.default
  rw [hsingle] at hdefault
  split_ifs with hassert
  · have hnone := deleteArena_aborts hassert hdefault (by simp) hoffers htenant.count
    simp only [hnone] at hstep
    cases hstep
    rfl
  · obtain ⟨memory, free₁, hdeleted, hsound⟩ :=
      deleteArena_returns (by simpa using hassert) hdefault hoffers htenant hdisjoint
    simp only [hdeleted] at hstep
    cases hstep
    have herase : s.arenas.erase a = [] := by
      rw [hsingle]
      exact List.erase_cons_head a []
    have hlive : s.live = [] := by
      refine List.eq_nil_iff_forall_not_mem.mpr fun p hp => ?_
      have hblock : p ∈ s.blocks a :=
        List.mem_filter.mpr ⟨hp, decide_eq_true (h.owned_eq ha hp)⟩
      rw [hempty] at hblock
      cases hblock
    refine ⟨rfl, rfl, free₁, ?_⟩
    simp only [if_true, herase]
    refine ⟨hsound, nofun, Nat.zero_le 1, fun p hp => ?_, nofun, h.mapped⟩
    rw [show s.live = [] from hlive] at hp
    cases hp

theorem Managed.write (h : Managed platform s free) {b : Block} {contents : Nat → AllocList}
    (hstep : s.perform platform (.write a b contents) = some t) :
    t.created = s.created ∧ t.aborted = s.aborted ∧ ∃ free, Managed platform t free := by
  simp only [perform] at hstep
  split_ifs at hstep with hb
  cases hstep
  obtain ⟨ha, hoffers⟩ := h.owned _ hb
  obtain ⟨free', region, htenant, hdisjoint, hstorage⟩ := h.tenant a ha
  have hblock : (a, b) ∈ s.blocks a := List.mem_filter.mpr ⟨hb, by simp⟩
  have hbusy : b.header ∈ (s.blocks a).map fun p => p.2.header :=
    List.mem_map_of_mem (f := fun p => p.2.header) hblock
  have hmem : b.header ∈ free' ++ (s.blocks a).map fun p => p.2.header :=
    List.mem_append_right _ hbusy
  have hsound := htenant.write hbusy hoffers contents
  refine ⟨rfl, rfl, free, h.tenant_step ha hsound hdisjoint hstorage (fun x _ hx => ?_)
    (fun _ _ => rfl) (fun _ hx => hx) fun p hp => ?_⟩
  · exact hoffers.write_other contents fun hin =>
      hx (htenant.tiles.mem_region (List.mem_map_of_mem hmem) hin)
  · have hpa := h.owned_eq ha hp
    have hblock' : p ∈ s.blocks a := List.mem_filter.mpr ⟨hp, decide_eq_true hpa⟩
    refine ⟨hpa, (h.owned p hp).2.congr ?_⟩
    exact size_eq_of_header (htenant.toHeap.write_header hmem hoffers contents
      (List.mem_append_right _ (List.mem_map_of_mem (f := fun p => p.2.header) hblock')))

theorem Inv.step (h : Inv platform s) (horderly : Orderly platform s c)
    (hstep : step platform s c = some t) : Inv platform t := by
  have hperform : s.perform platform c = some t := by
    simpa only [Arenas.step, h.running, Bool.false_eq_true, if_false] using hstep
  have hkept : (t.created = s.created ∧ t.aborted = s.aborted ∧
      ∃ free, Managed platform t free) → s.created ≠ 0 → Inv platform t := by
    rintro ⟨hcreated, haborted, hmanaged⟩ hne
    exact ⟨haborted.trans h.running, Or.inr ⟨hcreated ▸ hne, hmanaged⟩⟩
  obtain ⟨hcreated, hfresh⟩ | ⟨hcreated, free, hmanaged⟩ := h.stage
  · cases c with
    | newArena pages =>
      obtain ⟨hcount, haborted, hmanaged⟩ := hfresh.newArena hperform
      exact ⟨haborted.trans h.running, Or.inr ⟨by omega, hmanaged⟩⟩
    | allocWithArena _ _ _ => simp [perform, hfresh.arenas] at hperform
    | free _ _ => simp [perform, hfresh.live] at hperform
    | deleteArena _ => simp [perform, hfresh.arenas] at hperform
    | write _ _ _ => simp [perform, hfresh.live] at hperform
  · cases c with
    | newArena _ => exact absurd horderly hcreated
    | allocWithArena _ _ _ => exact hkept (hmanaged.allocWithArena hperform) hcreated
    | free arena _ =>
      have hreturns := hmanaged.release hperform
      rw [if_neg fun hfails => hfails.2 (horderly hfails.1)] at hreturns
      exact hkept hreturns hcreated
    | deleteArena _ =>
      have hreturns := hmanaged.deleteArena hperform
      have hassert : platform.assertions = false := horderly
      rw [hassert, if_neg Bool.false_ne_true] at hreturns
      exact hkept hreturns hcreated
    | write _ _ _ => exact hkept (hmanaged.write hperform) hcreated

/-! ## Calls that are not orderly -/

/-- A second arena: the default arena has forgotten the first one, or the pages of its block. -/
theorem Managed.newArena_not_accounted (h : Managed platform s free) {pages : List Nat}
    (hstep : s.perform platform (.newArena pages) = some t) : ¬ Accounted platform t := by
  rintro ⟨-, hcount, free₁, hlinked, htiles⟩
  simp only [perform, Option.bind_eq_bind, Option.bind_eq_some_iff, Option.pure_def,
    Option.some.injEq] at hstep
  obtain ⟨⟨a, runs, memory⟩, hcall, rfl⟩ := hstep
  obtain ⟨free', run, rfl, hdefault, -, -, -, hdisjoint⟩ := newArena_spec hcall
  have hone : (memory.arena platform.storage).allocationCount = 1 :=
    hdefault.count.trans (ArenaUse.bmod_of_lt (by decide : 1 < 2 ^ 31))
  have hnone : s.arenas = [] := by
    refine List.eq_nil_of_length_eq_zero ?_
    simp only [hone, List.length_cons] at hcount
    omega
  obtain rfl : free₁ = free' := hlinked.unique hdefault.freeList.chain_zero
  simp only [hnone] at htiles
  -- a byte that was mapped before is in no block
  obtain ⟨x, hx⟩ := h.mapped
  have hmem : x ∈ covered ([run] ++ s.mapped) := by
    rw [covered_append]
    exact Or.inr hx
  have hrun : x ∈ extent run := (hdefault.tiles.mem_iff x).mpr ((htiles.mem_iff x).mp hmem)
  exact Set.disjoint_left.mp hdisjoint hrun (h.default.region_reserved hx)

theorem Inv.not_accounted (h : Inv platform s) (horderly : ¬ Orderly platform s c)
    (hstep : Arenas.step platform s c = some t) : ¬ Accounted platform t := by
  have hperform : s.perform platform c = some t := by
    simpa only [Arenas.step, h.running, Bool.false_eq_true, if_false] using hstep
  have haborted : t.aborted = true → ¬ Accounted platform t := by
    intro haborted haccounted
    rw [haccounted.running] at haborted
    cases haborted
  obtain ⟨hcreated, hfresh⟩ | ⟨hcreated, free, hmanaged⟩ := h.stage
  · cases c with
    | newArena _ => exact absurd hcreated horderly
    | allocWithArena _ _ _ => exact absurd trivial horderly
    | free _ _ => simp [perform, hfresh.live] at hperform
    | deleteArena _ => simp [perform, hfresh.arenas] at hperform
    | write _ _ _ => exact absurd trivial horderly
  · cases c with
    | newArena _ => exact hmanaged.newArena_not_accounted hperform
    | allocWithArena _ _ _ => exact absurd trivial horderly
    | free arena _ =>
      have hfails := hmanaged.release hperform
      rw [if_pos (by simpa [Orderly] using horderly)] at hfails
      exact haborted hfails
    | deleteArena _ =>
      have hfails := hmanaged.deleteArena hperform
      rw [if_pos (by simpa [Orderly] using horderly)] at hfails
      exact haborted hfails
    | write _ _ _ => exact absurd trivial horderly

/-- The default arena keeps its accounting all the time, and no assertion fails, if and only if
every call is orderly. -/
theorem always_accounted_iff (hrun : exec (step platform) (initial platform m) calls = some s) :
    Always (Accounted platform) (step platform) (initial platform m) calls ↔
      Along (Orderly platform) (step platform) (initial platform m) calls :=
  always_iff_along (I := Inv platform) (fun _ hinv => hinv.accounted)
    (fun _ _ _ _ hinv horderly hstep => hinv.step horderly hstep)
    (fun _ _ _ _ hinv horderly hstep => hinv.not_accounted horderly hstep) (inv_initial m) hrun

/-- The platform without assertions. -/
def releasePlatform : Platform Nat := { ArenaUse.samplePlatform with assertions := false }

/-- An arena is created, used and deleted. -/
def orderlyCalls : List Call :=
  [.newArena [65536], .allocWithArena 100 65568 [131072], .free 65568 ⟨131104, 100⟩,
    .deleteArena 65568]

theorem always_accounted_iff_sample : ∃ s, exec (step releasePlatform)
    (initial releasePlatform ArenaUse.sampleMemory) orderlyCalls = some s ∧
    (s.arenas = [] ∧ s.aborted = false ∧ (s.memory.arena 4096).allocationCount = 0) ∧
    (Always (Accounted releasePlatform) (step releasePlatform)
        (initial releasePlatform ArenaUse.sampleMemory) orderlyCalls ↔
      Along (Orderly releasePlatform) (step releasePlatform)
        (initial releasePlatform ArenaUse.sampleMemory) orderlyCalls) := by
  obtain ⟨s, hrun, hend⟩ : ∃ s, exec (step releasePlatform)
      (initial releasePlatform ArenaUse.sampleMemory) orderlyCalls = some s ∧
      s.arenas = [] ∧ s.aborted = false ∧ (s.memory.arena 4096).allocationCount = 0 :=
    exists_exec (by decide +kernel)
  exact ⟨s, hrun, hend, always_accounted_iff hrun⟩

/-- With two arenas the count of the default arena is 1, and in a build with assertions the first
arena cannot be deleted. -/
theorem second_arena_miscounted : (∃ s, exec (step ArenaUse.samplePlatform)
      (initial ArenaUse.samplePlatform ArenaUse.sampleMemory)
      [.newArena [65536], .newArena [131072]] = some s ∧
      s.arenas = [131104, 65568] ∧ (s.memory.arena 4096).allocationCount = 1 ∧
      ¬ Accounted ArenaUse.samplePlatform s) ∧
    ∃ s, exec (step ArenaUse.samplePlatform)
      (initial ArenaUse.samplePlatform ArenaUse.sampleMemory)
      [.newArena [65536], .deleteArena 65568] = some s ∧ s.aborted = true := by
  refine ⟨?_, exists_exec (by decide +kernel)⟩
  obtain ⟨s, hrun, harenas, hcount⟩ : ∃ s, exec (step ArenaUse.samplePlatform)
      (initial ArenaUse.samplePlatform ArenaUse.sampleMemory)
      [.newArena [65536], .newArena [131072]] = some s ∧
      s.arenas = [131104, 65568] ∧ (s.memory.arena 4096).allocationCount = 1 :=
    exists_exec (by decide +kernel)
  refine ⟨s, hrun, harenas, hcount, fun haccounted => ?_⟩
  have hlength := haccounted.count
  rw [harenas] at hlength
  exact absurd (hcount.symm.trans hlength) (by decide)

end Arenas
end CppGuard
