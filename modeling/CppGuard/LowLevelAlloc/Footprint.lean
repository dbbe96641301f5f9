import CppGuard.LowLevelAlloc.Runs

/-!
# How much memory an arena maps

New pages are mapped only if no free range of the mapped memory is long enough for the request.
With small requests the mapped memory is therefore bounded by the largest number of blocks that
live at the same time, however long the run is.
-/
namespace CppGuard
open LinkedChain Transition

namespace Memory

variable {σ : Type} {platform : Platform σ} {m m' : Memory σ} {arena s r : Nat}
  {free busy : List Nat} {region : Set Nat} {runs : List (Nat × Nat)} {pages : List Nat}

/-! ## The sizes of blocks and runs -/

/-- The rest of a block is split off if it can be a block. -/
theorem Heap.splitRegion_size (h : Heap platform m arena free (s :: busy) region)
    (hapart : m.Apart free) (hr : 64 ≤ r)
    (hsplit : m.splitRegion platform arena s r = some m') : (m'.node s).size < r + 64 := by
  simp only [Memory.splitRegion, h.minSize, Option.bind_eq_bind, Option.bind_eq_some_iff] at hsplit
  obtain ⟨needed, hneeded, hsplit⟩ := hsplit
  obtain ⟨rfl, -⟩ := checkedAdd_eq_some.mp hneeded
  split_ifs at hsplit with hsize
  · obtain ⟨m₁, free', hcarve, -, -, -, hnode, -⟩ := h.carve hapart hr hsize rfl
    obtain rfl : m₁ = m' := Option.some.inj (hcarve.symm.trans hsplit)
    rw [hnode]
    exact Nat.lt_add_of_pos_right (by decide)
  · obtain rfl : m = m' := Option.some.inj hsplit
    exact Nat.not_le.mp hsize

theorem Sound.takeRegion_size (h : Sound platform m arena free busy region) (hr : 64 ≤ r)
    (hs : s ∈ free) (htake : m.takeRegion platform arena s r = some m') :
    (m'.node s).size < r + 64 := by
  obtain ⟨pre, post, rfl⟩ := List.append_of_mem hs
  obtain ⟨m₁, hdelete, hheap₁, -, hheader₁⟩ := h.delete
  have hapart₁ : m₁.Apart (pre ++ post) := by
    have hsub : (pre ++ post).Sublist (pre ++ s :: post) := by simp
    refine (h.apart.sublist hsub).imp fun hxy => ?_
    rwa [size_eq_of_header (hheader₁ _)]
  simp only [takeRegion, hdelete, Option.bind_eq_bind, Option.bind_some,
    Option.bind_eq_some_iff] at htake
  obtain ⟨m₂, hsplit, -, -, hmark⟩ := htake
  have hsize := hheap₁.splitRegion_size hapart₁ hr hsplit
  obtain rfl := Option.some.inj hmark
  rwa [modifyArena, modifyNode_field AllocList.size rfl]

/-- A new run has the size of the request, rounded up to 16 pages. -/
theorem Sound.findRegion_size (h : Sound platform m arena free busy region) (hr : 64 ≤ r)
    (hfound : Memory.findRegion platform arena r pages m = some (s, runs, m')) :
    ∀ run ∈ runs, CppGuard.roundUp r (platform.pagesize * 16) = some run.2 := by
  cases hfind : free.find? (m.fits r) with
  | some x =>
    rw [h.findRegion_found hr hfind pages] at hfound
    cases hfound
    simp
  | none =>
    have hnone := (h.find h.apart hr).trans (congrArg some hfind)
    cases pages with
    | nil => simp [Memory.findRegion, hnone] at hfound
    | cons p pages =>
      have hmapped := hfound
      simp only [Memory.findRegion, hnone, h.pagesize, mapPages, Option.bind_eq_bind,
        Option.bind_some, Option.bind_eq_some_iff, Option.ite_none_right_eq_some] at hmapped
      obtain ⟨size, hsize, -, ⟨hfresh, -⟩, -⟩ := hmapped
      obtain ⟨_, _, _, hfound', -⟩ := h.findRegion_map hr hfind hsize hfresh pages
      cases hfound'.symm.trans hfound
      simpa using hsize

/-- A block is at most one small block larger than the request needs. -/
theorem Sound.alloc_size (h : Sound platform m arena free busy region) {request : Nat}
    (hrequest : 0 < request) {v : Option Nat}
    (hcall : m.allocWithArena platform request arena pages = some (v, runs, m')) :
    ∃ s r, v = some (s + sizeofHeader) ∧ m.roundedSize arena request = some r ∧
      (m'.node s).size < r + 64 ∧
      ∀ run ∈ runs, CppGuard.roundUp r (platform.pagesize * 16) = some run.2 := by
  obtain ⟨s, r, _, rfl, hr, -⟩ := h.alloc hrequest hcall
  simp only [allocWithArena, Nat.ne_of_gt hrequest, if_false, hr, Option.bind_eq_bind,
    Option.bind_eq_some_iff, Option.bind_some, Option.pure_def] at hcall
  obtain ⟨-, -, ⟨s', runs', m₁⟩, hfound, m₂, htake, heq⟩ := hcall
  cases heq
  obtain ⟨-, h64⟩ := roundedSize_eq_some h.roundUp hrequest hr
  obtain ⟨free₁, hsound₁, hfind, -⟩ := h.findRegion h64 hfound
  have hs := List.mem_of_find?_eq_some hfind
  exact ⟨_, r, rfl, hr, hsound₁.takeRegion_size h64 hs htake, h.findRegion_size h64 hfound⟩

end Memory

namespace ArenaUse

variable {σ : Type} {platform : Platform σ} {arena r : Nat} {m : Memory σ} {s t : ArenaUse σ}
  {c : Call} {calls : List Call} {free : List Nat}

/-! ## Reuse -/

/-- The memory of the live blocks, with their headers and what was not split off. -/
def used (s : ArenaUse σ) : Set Nat := covered (s.busy.map s.memory.tile)

/-- The free blocks are the mapped memory that is not used. -/
theorem Inv.covered_free (h : Inv platform arena s free) :
    covered (free.map s.memory.tile) = covered s.mapped \ s.used := by
  have htiles := h.sound.tiles
  rw [List.map_append] at htiles
  ext x
  constructor
  · rintro ⟨t, ht, hx⟩
    refine ⟨htiles.mem_region (List.mem_append_left _ ht) hx, ?_⟩
    rintro ⟨u, hu, hxu⟩
    exact disjoint_extent.mp ((List.pairwise_append.mp htiles.disjoint).2.2 t ht u hu) x hx hxu
  · rintro ⟨hx, hunused⟩
    obtain ⟨t, ht, hxt⟩ := (htiles.mem_iff x).mp hx
    obtain ht | ht := List.mem_append.mp ht
    · exact ⟨t, ht, hxt⟩
    · exact absurd ⟨t, ht, hxt⟩ hunused

theorem Inv.apart (h : Inv platform arena s free) :
    (free.map s.memory.tile).Pairwise fun t u => t.1 + t.2 < u.1 :=
  List.pairwise_map.mpr h.sound.apart

/-- A call is served without new pages if and only if somewhere in the mapped memory a range is
free that is long enough, whatever was allocated and freed before. -/
theorem exec_reuse_iff (h : arena ∈ m.reserved platform) (harena : arena ≠ 0)
    (hrun : exec (step platform arena) (initial platform arena m) calls = some s)
    {request : Nat} (hrequest : 0 < request) (hr : s.memory.roundedSize arena request = some r)
    (hlt : r + (s.memory.arena arena).minSize < 2 ^ 64) (pages : List Nat) :
    (∃ v m', s.memory.allocWithArena platform request arena pages = some (some v, [], m')) ↔
      ∃ lo, extent (lo, r) ⊆ covered s.mapped \ s.used := by
  obtain ⟨free, hinv⟩ := inv_exec h hrun
  have hfirst := hinv.firstFit harena hrequest hr
  have h64 := (Memory.roundedSize_eq_some hinv.sound.roundUp hrequest hr).2
  rw [← hinv.covered_free]
  constructor
  · rintro ⟨v, m', hcall⟩
    obtain ⟨-, x, hx, -, hle, -⟩ | ⟨⟨_, hruns⟩, -⟩ := hfirst.serves pages _ _ _ hcall
    · refine ⟨x, fun y hy => ⟨s.memory.tile x, List.mem_map_of_mem hx, hy.1, ?_⟩⟩
      exact Nat.lt_of_lt_of_le hy.2 (Nat.add_le_add_left hle x)
    · cases hruns
  · rintro ⟨lo, hlo⟩
    obtain ⟨_, ht, hsub⟩ := Tiles.exists_extent_subset hinv.apart (by omega) hlo
    obtain ⟨x, hx, rfl⟩ := List.mem_map.mp ht
    refine hfirst.returns hlt ⟨x, hx, ?_⟩ pages
    have hfirst := (hsub ⟨Nat.le_refl lo, by simp only; omega⟩ : lo ∈ extent (s.memory.tile x))
    have hlast := (hsub ⟨by simp only; omega, by simp only; omega⟩ :
      lo + r - 1 ∈ extent (s.memory.tile x))
    rw [mem_extent, Memory.tile] at hfirst hlast
    simp only at hfirst hlast
    omega

theorem exec_reuse_iff_sample : ∃ s, exec (step samplePlatform 4096)
    (initial samplePlatform 4096 sampleMemory) sampleCalls = some s ∧
    ((∃ v m', s.memory.allocWithArena samplePlatform 5000 4096 [] = some (some v, [], m')) ↔
      ∃ lo, extent (lo, 5056) ⊆ covered s.mapped \ s.used) := by
  obtain ⟨s, hrun, hr, hlt⟩ : ∃ s, exec (step samplePlatform 4096)
      (initial samplePlatform 4096 sampleMemory) sampleCalls = some s ∧
      s.memory.roundedSize 4096 5000 = some 5056 ∧
      5056 + (s.memory.arena 4096).minSize < 2 ^ 64 := exists_exec (by decide +kernel)
  exact ⟨s, hrun, exec_reuse_iff (storage_mem_reserved samplePlatform sampleMemory) (by decide)
    hrun (by decide) hr hlt []⟩

/-! ## The bound -/

/-- The size of a run that is mapped for a small request. -/
def runSize (platform : Platform σ) : Nat := platform.pagesize * 16

/-- The blocks are not much larger than `r`, and the runs are separate and all of one size. -/
structure Small (platform : Platform σ) (r : Nat) (s : ArenaUse σ) : Prop where
  sizes : ∀ b ∈ s.live, (s.memory.node b.header).size < r + 64
  runs : ∀ run ∈ s.mapped, run.2 = runSize platform
  disjoint : s.mapped.Pairwise fun t u => Disjoint (extent t) (extent u)

/-- With `l` live blocks at most, not many runs were mapped before the last one. -/
def Compact (platform : Platform σ) (r l : Nat) (s : ArenaUse σ) : Prop :=
  (s.mapped.length - 1) * (runSize platform - r) ≤ l * (2 * r + 64)

/-- A request that is rounded to `r` bytes at most. -/
def Request (arena : Addr) (r : Nat) (s : ArenaUse σ) : Call → Prop
  | .allocWithArena request _ => ∀ size ∈ s.memory.roundedSize arena request, size ≤ r
  | .free _ | .write _ _ => True

instance (arena : Addr) (r : Nat) (s : ArenaUse σ) (c : Call) : Decidable (Request arena r s c) :=
  match c with
  | .allocWithArena request _ =>
    inferInstanceAs (Decidable (∀ size ∈ s.memory.roundedSize arena request, size ≤ r))
  | .free _ | .write _ _ => isTrue trivial

/-- What is mapped before a new run is full of blocks, up to pieces that are too small. -/
theorem Inv.runs_le (h : Inv platform arena s free) (hsmall : Small platform r s)
    (hfull : ∀ x ∈ free, (s.memory.node x).size < r) :
    s.mapped.length * (runSize platform - r) ≤ s.live.length * (2 * r + 64) := by
  have htiles := h.sound.tiles
  rw [List.map_append] at htiles
  have hcount : free.length ≤ s.live.length + s.mapped.length := by
    have hpos : ∀ t ∈ free.map s.memory.tile, 0 < t.2 := by
      intro t ht
      obtain ⟨x, hx, rfl⟩ := List.mem_map.mp ht
      have := h.sound.size_le x (List.mem_append_left _ hx)
      simp only [Memory.tile]
      omega
    simpa [busy] using htiles.length_le h.apart hpos
  have hmapped : (s.mapped.map Prod.snd).sum = s.mapped.length * runSize platform := by
    have hall : ∀ n ∈ s.mapped.map Prod.snd, n = runSize platform :=
      List.forall_mem_map.mpr hsmall.runs
    simpa using List.sum_eq_card_nsmul _ _ hall
  have hfree : ((free.map s.memory.tile).map Prod.snd).sum ≤ free.length * r := by
    refine le_trans (List.sum_le_card_nsmul _ r ?_) (by simp)
    simp only [List.forall_mem_map, Memory.tile]
    exact fun x hx => Nat.le_of_lt (hfull x hx)
  have hbusy : ((s.busy.map s.memory.tile).map Prod.snd).sum ≤ s.live.length * (r + 64) := by
    refine le_trans (List.sum_le_card_nsmul _ (r + 64) ?_) (by simp [busy])
    simp only [busy, List.forall_mem_map, Memory.tile]
    exact fun b hb => Nat.le_of_lt (hsmall.sizes b hb)
  have hruns : Tiles s.mapped (covered s.mapped) := ⟨hsmall.disjoint, fun _ => Iff.rfl⟩
  have hsum := htiles.ncard
  rw [hruns.ncard, hmapped, List.map_append, List.sum_append] at hsum
  have hle : s.mapped.length * runSize platform ≤
      (s.live.length + s.mapped.length) * r + s.live.length * (r + 64) :=
    calc s.mapped.length * runSize platform
        ≤ free.length * r + s.live.length * (r + 64) := by omega
      _ ≤ _ := Nat.add_le_add_right (Nat.mul_le_mul_right r hcount) _
  rw [Nat.mul_sub, Nat.sub_le_iff_le_add]
  calc s.mapped.length * runSize platform
      ≤ (s.live.length + s.mapped.length) * r + s.live.length * (r + 64) := hle
    _ = s.live.length * (2 * r + 64) + s.mapped.length * r := by ring

/-- A small request needs a run of the smallest size. -/
theorem roundUp_runSize {r' size : Nat} (hpos : 0 < r') (hle : r' ≤ runSize platform)
    (h : CppGuard.roundUp r' (platform.pagesize * 16) = some size) : size = runSize platform := by
  obtain ⟨k, hk, hpagesize⟩ := Memory.pagesize_mul platform
  rw [hpagesize] at h
  rw [runSize, hpagesize] at hle ⊢
  obtain ⟨hge, hlt, hmod, -⟩ := roundUp_eq_some (by omega) h
  obtain ⟨q, rfl⟩ := Nat.dvd_of_mod_eq_zero hmod
  have hq : q = 1 := by
    have hlt' : 2 ^ k * q < 2 ^ k * 2 := by omega
    have := Nat.lt_of_mul_lt_mul_left hlt'
    have : q ≠ 0 := by
      rintro rfl
      omega
    omega
  rw [hq, Nat.mul_one]

/-- What a call of `AllocWithArena` does to the blocks and the runs. -/
structure Allocated (platform : Platform σ) (r : Nat) (free : List Nat) (s t : ArenaUse σ) :
    Prop where
  live : ∃ b, t.live = b :: s.live ∧ (t.memory.node b.header).size < r + 64
  sizes : ∀ b ∈ s.live, (t.memory.node b.header).size = (s.memory.node b.header).size
  mapped : t.mapped = s.mapped ∨ (∀ x ∈ free, (s.memory.node x).size < r) ∧
    ∃ run, t.mapped = run :: s.mapped ∧ run.2 = runSize platform ∧
      Disjoint (extent run) (covered s.mapped)

theorem Inv.allocated (h : Inv platform arena s free) {request : Nat} {pages : List Nat}
    (hrequest : ∀ size ∈ s.memory.roundedSize arena request, size ≤ r) (hr : r ≤ runSize platform)
    (hstep : ArenaUse.step platform arena s (.allocWithArena request pages) = some t) :
    t = s ∨ Allocated platform r free s t := by
  simp only [ArenaUse.step, Option.bind_eq_bind, Option.bind_eq_some_iff] at hstep
  obtain ⟨⟨v, runs, memory⟩, hcall, hstep⟩ := hstep
  obtain rfl | hpos := Nat.eq_zero_or_pos request
  · simp only [Memory.allocWithArena, if_true, Option.bind_eq_bind,
      Option.bind_eq_some_iff] at hcall
    obtain ⟨-, -, hcall⟩ := hcall
    cases hcall
    cases hstep
    exact .inl rfl
  · obtain ⟨a, r', _, rfl, hr', -, -, hkept, -, hdisjoint, hfirst⟩ := h.sound.alloc hpos hcall
    obtain ⟨a', r'', ha, hr'', hsize, hruns⟩ := h.sound.alloc_size hpos hcall
    obtain rfl : a' = a := Nat.add_right_cancel (Option.some.inj ha.symm)
    obtain rfl : r'' = r' := Option.some.inj (hr''.symm.trans hr')
    have hle := hrequest r'' hr'
    have h64 := (Memory.roundedSize_eq_some h.sound.roundUp hpos hr').2
    cases hstep
    have hheader : Block.header ⟨a' + sizeofHeader, request⟩ = a' := Nat.add_sub_cancel ..
    refine .inr ⟨⟨_, rfl, ?_⟩, fun b hb => ?_, ?_⟩
    · rw [hheader]
      exact Nat.lt_of_lt_of_le hsize (by omega)
    · rw [hkept.busy b.header (List.mem_map_of_mem hb)]
    · obtain ⟨rfl, -⟩ | ⟨hnone, run, rfl⟩ := hfirst
      · exact .inl rfl
      · refine .inr ⟨fun x hx => ?_, run, rfl, ?_, ?_⟩
        · exact Nat.lt_of_lt_of_le (find?_fits_eq_none.mp hnone x hx) (by omega)
        · exact roundUp_runSize (by omega) (by omega) (hruns run (by simp))
        · rw [covered_cons, covered_nil, Set.union_empty] at hdisjoint
          exact hdisjoint.mono_right h.sound.region_reserved

/-- The blocks that stay keep their sizes. -/
theorem Inv.size_of_free (h : Inv platform arena s free) {b : Block}
    (hstep : ArenaUse.step platform arena s (.free b) = some t) :
    t.live ⊆ s.live ∧ t.mapped = s.mapped ∧
      ∀ b' ∈ t.live, (t.memory.node b'.header).size = (s.memory.node b'.header).size := by
  simp only [ArenaUse.step] at hstep
  split_ifs at hstep with hb
  have hperm : s.live.Perm (b :: s.live.erase b) := List.perm_cons_erase hb
  obtain ⟨memory, free', hfree, -, hkept, -⟩ := (h.sound.perm (hperm.map Block.header)).release
  rw [← (h.offers b hb).behind] at hfree
  simp only [hfree, Option.bind_eq_bind, Option.bind_eq_some_iff, Option.map_eq_some_iff] at hstep
  obtain ⟨_, ⟨-, -, rfl⟩, hstep⟩ := hstep
  cases hstep
  refine ⟨List.erase_subset, rfl, fun b' hb' => ?_⟩
  rw [hkept.busy b'.header (List.mem_map_of_mem hb')]

theorem Inv.size_of_write (h : Inv platform arena s free) {b : Block} {contents : Nat → AllocList}
    (hstep : ArenaUse.step platform arena s (.write b contents) = some t) :
    t.live ⊆ s.live ∧ t.mapped = s.mapped ∧
      ∀ b' ∈ t.live, (t.memory.node b'.header).size = (s.memory.node b'.header).size := by
  simp only [ArenaUse.step] at hstep
  split_ifs at hstep with hb
  cases hstep
  have hmem : ∀ {b : Block}, b ∈ s.live → b.header ∈ free ++ s.busy :=
    fun hb => List.mem_append_right _ (List.mem_map_of_mem hb)
  exact ⟨List.Subset.refl _, rfl, fun b' hb' => Memory.size_eq_of_header
    (h.sound.toHeap.write_header (hmem hb) (h.offers b hb) contents (hmem hb'))⟩

theorem Small.shrink (h : Small platform r s) (hlive : t.live ⊆ s.live)
    (hmapped : t.mapped = s.mapped)
    (hsizes : ∀ b ∈ t.live, (t.memory.node b.header).size = (s.memory.node b.header).size) :
    Small platform r t where
  sizes b hb := by
    rw [hsizes b hb]
    exact h.sizes b (hlive hb)
  runs := hmapped ▸ h.runs
  disjoint := hmapped ▸ h.disjoint

theorem Small.allocated (h : Small platform r s) (ht : Allocated platform r free s t) :
    Small platform r t := by
  obtain ⟨⟨b, hlive, hb⟩, hsizes, hmapped⟩ := ht
  have hlive' : ∀ b ∈ t.live, (t.memory.node b.header).size < r + 64 := by
    rw [hlive]
    refine List.forall_mem_cons.mpr ⟨hb, ?_⟩
    intro b' hb'
    rw [hsizes b' hb']
    exact h.sizes b' hb'
  obtain hmapped | ⟨-, run, hmapped, hsize, hdisjoint⟩ := hmapped
  · exact ⟨hlive', hmapped ▸ h.runs, hmapped ▸ h.disjoint⟩
  · refine ⟨hlive', ?_, ?_⟩ <;> rw [hmapped]
    · exact List.forall_mem_cons.mpr ⟨hsize, h.runs⟩
    · refine List.pairwise_cons.mpr ⟨fun u hu => ?_, h.disjoint⟩
      have hsub : extent u ⊆ covered s.mapped := fun x hx => ⟨u, hu, hx⟩
      exact hdisjoint.mono_right hsub

/-- A run is mapped only if the ones before it are full. -/
theorem Inv.compact (h : Inv platform arena s free) (hsmall : Small platform r s) {l : Nat}
    (hcompact : Compact platform r l s) (hlive : s.live.length ≤ l)
    (ht : Allocated platform r free s t) : Compact platform r l t := by
  obtain hmapped | ⟨hfull, run, hmapped, -⟩ := ht.mapped
  · rwa [Compact, hmapped]
  · rw [Compact, hmapped, List.length_cons, Nat.add_sub_cancel]
    exact (h.runs_le hsmall hfull).trans (Nat.mul_le_mul_right _ hlive)

theorem Inv.small_step (h : Inv platform arena s free) (hr : r ≤ runSize platform) {l : Nat}
    (hsmall : Small platform r s) (hcompact : Compact platform r l s)
    (hlive : s.live.length ≤ l) (hc : Request arena r s c)
    (hstep : ArenaUse.step platform arena s c = some t) :
    Small platform r t ∧ Compact platform r l t := by
  cases c with
  | allocWithArena request pages =>
    obtain rfl | hallocated := h.allocated hc hr hstep
    · exact ⟨hsmall, hcompact⟩
    · exact ⟨hsmall.allocated hallocated, h.compact hsmall hcompact hlive hallocated⟩
  | free b =>
    obtain ⟨hsub, hmapped, hsizes⟩ := h.size_of_free hstep
    exact ⟨hsmall.shrink hsub hmapped hsizes, by rwa [Compact, hmapped]⟩
  | write b contents =>
    obtain ⟨hsub, hmapped, hsizes⟩ := h.size_of_write hstep
    exact ⟨hsmall.shrink hsub hmapped hsizes, by rwa [Compact, hmapped]⟩

/-- The mapped memory does not grow with the length of the run. If no request needs more than `r`
bytes and no more than `l` blocks live at a time, then all runs but the last one, each without `r`
bytes of it, have `l` times `2 * r + 64` bytes at most. -/
theorem exec_mapped_le (h : arena ∈ m.reserved platform) (hr : r ≤ platform.pagesize * 16)
    {l : Nat}
    (hcalls : Along (Request arena r) (step platform arena) (initial platform arena m) calls)
    (hpeak : Along (fun s _ => s.live.length ≤ l) (step platform arena)
      (initial platform arena m) calls)
    (hrun : exec (step platform arena) (initial platform arena m) calls = some s) :
    (∀ run ∈ s.mapped, run.2 = platform.pagesize * 16) ∧
      (s.mapped.length - 1) * (platform.pagesize * 16 - r) ≤ l * (2 * r + 64) := by
  have hboth : Along (fun s c => s.live.length ≤ l ∧ Request arena r s c) (step platform arena)
      (initial platform arena m) calls := along_and.mpr ⟨hpeak, hcalls⟩
  have hinitial : ∃ free, Inv platform arena (initial platform arena m) free ∧
      Small platform r (initial platform arena m) ∧
      Compact platform r l (initial platform arena m) := by
    refine ⟨[], inv_initial h, ⟨?_, ?_, ?_⟩, ?_⟩ <;> simp [initial, Compact]
  obtain ⟨free, -, hsmall, hcompact⟩ : ∃ free, Inv platform arena s free ∧ Small platform r s ∧
      Compact platform r l s := by
    refine exec_invariant_along (I := fun s => ∃ free, Inv platform arena s free ∧
      Small platform r s ∧ Compact platform r l s) ?_ hinitial hrun hboth
    rintro s c t ⟨free, hinv, hsmall, hcompact⟩ ⟨hlive, hc⟩ hstep
    obtain ⟨free', hinv'⟩ := hinv.step hstep
    exact ⟨free', hinv', hinv.small_step hr hsmall hcompact hlive hc hstep⟩
  exact ⟨hsmall.runs, hcompact⟩

/-- Three blocks, of which two live at a time. -/
def smallCalls : List Call :=
  [.allocWithArena 1000 [65536], .allocWithArena 40 [], .free ⟨65568, 1000⟩,
    .allocWithArena 500 []]

theorem exec_mapped_le_sample : ∃ s, exec (step samplePlatform 4096)
    (initial samplePlatform 4096 sampleMemory) smallCalls = some s ∧
    (s.mapped.length - 1) * (4096 * 16 - 1056) ≤ 2 * (2 * 1056 + 64) := by
  obtain ⟨s, hrun, -⟩ : ∃ s, exec (step samplePlatform 4096)
      (initial samplePlatform 4096 sampleMemory) smallCalls = some s ∧ True :=
    exists_exec (by decide +kernel)
  exact ⟨s, hrun, (exec_mapped_le (storage_mem_reserved samplePlatform sampleMemory) (by decide)
    (by decide +kernel) (by decide +kernel) hrun).2⟩

end ArenaUse
end CppGuard
