import CppGuard.LowLevelAlloc.Runs

/-!
# Creating and deleting arenas

`NewArena` constructs the default arena once more, so that its free list is empty, and puts the new
arena in a block of newly mapped pages. `DeleteArena` releases the free blocks of an arena and frees
its metadata.
-/
namespace CppGuard
open LinkedChain

namespace Memory

variable {σ : Type} {platform : Platform σ} {m m' : Memory σ} {arena a b s : Nat}
  {free busy l : List Nat} {region : Set Nat} {runs : List (Nat × Nat)}

/-- What happens outside of an arena and its blocks does not matter for it. -/
theorem Sound.other (h : Sound platform m arena free busy region)
    (hnode : ∀ x, x = arena ∨ x ∈ free ++ busy → m'.node x = m.node x)
    (harena : m'.arena arena = m.arena arena) (hreserved : arena ∈ m'.reserved platform)
    (hregion : region ⊆ m'.reserved platform) : Sound platform m' arena free busy region := by
  have hfree : ∀ x ∈ free, m'.node x = m.node x :=
    fun x hx => hnode x (Or.inr (List.mem_append_left _ hx))
  have hbusy : ∀ x ∈ busy, m'.node x = m.node x :=
    fun x hx => hnode x (Or.inr (List.mem_append_right _ hx))
  refine ⟨h.toHeap.congr (hnode arena (Or.inl rfl)) hfree (fun x hx => by rw [hbusy x hx])
    ⟨_, _, harena⟩, ?_, fun x hx => ?_, ?_, hreserved, hregion⟩
  · exact h.apart.imp_of_mem fun hx _ hxy => by rwa [hfree _ hx]
  · rw [hbusy x hx]
    exact h.marked x hx
  · rw [harena]
    exact h.count

theorem reserved_mono (h : m.runs ⊆ m'.runs) : m.reserved platform ⊆ m'.reserved platform :=
  Set.union_subset_union_right _ fun _ ⟨run, hrun, hx⟩ => ⟨run, h hrun, hx⟩

/-- The metadata of an arena, as a block of the default arena. -/
def metadata (a : Nat) : Block := ⟨a, sizeofArena⟩

/-- The arena lies inside of the block of its metadata, so no block begins where it is. -/
theorem Heap.metadata_notMem (h : Heap platform m arena free busy region)
    (hoffers : m.Offers (metadata a)) (hmem : (metadata a).header ∈ free ++ busy) :
    a ∈ region ∧ a ∉ free ++ busy := by
  have hbehind : a = (metadata a).header + sizeofHeader := hoffers.behind
  have hfits := hoffers.fits
  have hin : a ∈ extent (m.tile (metadata a).header) := by
    rw [mem_extent, tile]
    simp only [metadata, sizeofArena, sizeofHeader] at hbehind hfits ⊢
    omega
  have hne : a ≠ (metadata a).header := by
    simp only [sizeofHeader] at hbehind
    omega
  exact ⟨h.tiles.mem_region (List.mem_map_of_mem hmem) hin, h.notMem_of_inside hmem hin hne⟩

/-- What `NewArena` leaves, whatever the default arena was before. -/
theorem newArena_spec {pages : List Nat} (h : m.newArena platform pages = some (a, runs, m')) :
    ∃ free run, runs = [run] ∧
      Sound platform m' platform.storage free [(metadata a).header] (extent run) ∧
      m'.Offers (metadata a) ∧ Sound platform m' a [] [] ∅ ∧ m'.runs = run :: m.runs ∧
      Disjoint (extent run) (m.reserved platform) := by
  simp only [newArena, Option.bind_eq_bind, Option.bind_eq_some_iff, Option.pure_def,
    Option.some.injEq] at h
  obtain ⟨⟨_, runs', m₁⟩, hcall, _, rfl, heq⟩ := h
  cases heq
  have hconstructed : Sound platform (m.unhookedArena platform) platform.storage [] [] ∅ :=
    sound_constructArena platform (ArenaUse.storage_mem_reserved platform m)
  obtain ⟨s, r, free, hv, -, hsound, hfits, -, hruns, hdisjoint, hfirst⟩ :=
    hconstructed.alloc (by decide) hcall
  obtain ⟨run, rfl⟩ : ∃ run, runs' = [run] := by
    obtain ⟨-, hfound⟩ | ⟨-, hrun⟩ := hfirst
    · cases hfound
    · exact hrun
  obtain rfl : a = s + sizeofHeader := Option.some.inj hv
  have hheader : (metadata (s + sizeofHeader)).header = s := Nat.add_sub_cancel ..
  rw [covered_cons, covered_nil, Set.union_empty] at hdisjoint
  rw [covered_cons, covered_nil, Set.union_empty, Set.union_empty] at hsound
  have hoffers₁ : m₁.Offers (metadata (s + sizeofHeader)) := ⟨by rw [hheader]; rfl, by
    rw [hheader]
    exact hfits⟩
  have hmem : (metadata (s + sizeofHeader)).header ∈ free ++ [s] := by simp [hheader]
  obtain ⟨hregion, hnot⟩ := hsound.toHeap.metadata_notMem hoffers₁ hmem
  have hne : platform.storage ≠ s + sizeofHeader := fun heq => hsound.arena_notMem (heq ▸ hregion)
  have hnode : ∀ x, x ≠ s + sizeofHeader →
      (m₁.constructArena platform (s + sizeofHeader)).node x = m₁.node x :=
    fun x hx => Function.update_of_ne hx ..
  refine ⟨free, run, rfl, ?_, ?_, ?_, hruns, hdisjoint⟩
  · rw [hheader]
    refine hsound.other (fun x hx => hnode x ?_) (Function.update_of_ne hne ..)
      hsound.arena_reserved hsound.region_reserved
    rintro rfl
    exact hx.elim hne.symm hnot
  · refine hoffers₁.congr ?_
    rw [hheader, hnode s fun heq => hnot (heq ▸ by simp)]
  · exact sound_constructArena platform (hsound.region_reserved hregion)

/-! ## `DeleteArena` -/

/-- Releasing the free blocks of an arena changes only the arena and the runs. -/
theorem releaseRegions_frame {fuel : Nat}
    (h : Memory.releaseRegions platform a fuel m = some m') :
    m'.arena = m.arena ∧ ∀ x, x ≠ a → m'.node x = m.node x := by
  induction fuel generalizing m with
  | zero => cases h
  | succ fuel ih =>
    unfold Memory.releaseRegions at h
    cases hnext : (m.node a).next 0 with
    | none =>
      simp only [hnext, Option.some.injEq] at h
      obtain rfl := h
      exact ⟨rfl, fun _ _ => rfl⟩
    | some s =>
      simp only [hnext, Option.bind_eq_bind, Option.bind_eq_some_iff] at h
      obtain ⟨-, -, -, -, -, -, -, -, h⟩ := h
      obtain ⟨harena, hnode⟩ := ih h
      refine ⟨harena, fun x hx => (hnode x hx).trans ?_⟩
      exact (node_modifyNode_of_ne _ hx : (m.setNext a 0 _).node x = m.node x)

/-- Without assertions the loop ends. The runs outside of the free blocks stay. -/
theorem releaseRegions_returns (hassert : platform.assertions = false) {fuel : Nat}
    (hchain : Chain (fun x => (m.node x).next 0) ((m.node a).next 0) l) (ha : a ∉ l)
    (hfuel : l.length < fuel) : ∃ m', Memory.releaseRegions platform a fuel m = some m' ∧
      ∀ run ∈ m.runs, (∀ x ∈ l, ¬ (x ≤ run.1 ∧ run.1 + run.2 ≤ x + (m.node x).size)) →
        run ∈ m'.runs := by
  induction l generalizing m fuel with
  | nil =>
    obtain ⟨fuel, rfl⟩ := Nat.exists_eq_succ_of_ne_zero (Nat.ne_of_gt hfuel)
    have hnext : (m.node a).next 0 = none := hchain
    exact ⟨m, by simp only [Memory.releaseRegions, hnext], fun run hrun _ => hrun⟩
  | cons s l ih =>
    obtain ⟨fuel, rfl⟩ := Nat.exists_eq_succ_of_ne_zero (Nat.ne_zero_of_lt hfuel)
    obtain ⟨has, hal⟩ := not_or.mp fun h => ha (List.mem_cons.mpr h)
    have hnext : (m.node a).next 0 = some s := hchain.1
    set m₁ : Memory σ := { m.setNext a 0 ((m.node s).next 0) with
      runs := m.runs.filter fun run =>
        ¬ (s ≤ run.1 ∧ run.1 + run.2 ≤ s + (m.node s).size) }
    have hnode : ∀ x, x ≠ a → m₁.node x = m.node x :=
      fun x hx => (node_modifyNode_of_ne _ hx : (m.setNext a 0 _).node x = m.node x)
    have hhead : (m₁.node a).next 0 = (m.node s).next 0 :=
      (next_setNext ((m.node s).next 0)).trans (if_pos ⟨rfl, rfl⟩)
    have hmem : ∀ x ∈ l, x ≠ a := fun x hx heq => hal (heq ▸ hx)
    have hrest : Chain (fun x => (m₁.node x).next 0) ((m₁.node a).next 0) l := by
      rw [hhead]
      exact hchain.2.congr fun x hx => by rw [hnode x (hmem x hx)]
    obtain ⟨m', hrelease, hruns⟩ := ih hrest hal (Nat.lt_of_succ_lt_succ hfuel)
    refine ⟨m', ?_, fun run hrun hout => ?_⟩
    · simp only [Memory.releaseRegions, hnext, platform.check_of_not hassert, Option.bind_eq_bind,
        Option.bind_some]
      exact hrelease
    · obtain ⟨hs, hl⟩ := List.forall_mem_cons.mp hout
      refine hruns run (List.mem_filter.mpr ⟨hrun, decide_eq_true hs⟩) fun x hx => ?_
      rw [hnode x (hmem x hx)]
      exact hl x hx

theorem metadata_ne_zero (h : m.Offers (metadata a)) : a ≠ 0 := by
  have hbehind : a = (metadata a).header + sizeofHeader := h.behind
  simp only [sizeofHeader] at hbehind
  omega

/-- Without assertions the default arena gets the block of the metadata back. -/
theorem deleteArena_returns (hassert : platform.assertions = false)
    (h : Sound platform m platform.storage free ((metadata a).header :: busy) region)
    (hoffers : m.Offers (metadata a)) {free' : List Nat} {region' : Set Nat}
    (htenant : Sound platform m a free' [] region') (hdisjoint : Disjoint region' region) :
    ∃ m' free₁, m.deleteArena platform a = some (true, m') ∧
      Sound platform m' platform.storage free₁ busy region := by
  obtain ⟨hregion, hnot⟩ := h.toHeap.metadata_notMem hoffers (by simp)
  have hne : platform.storage ≠ a := fun heq => h.arena_notMem (heq ▸ hregion)
  have hcount : (m.arena a).allocationCount = 0 := htenant.count
  obtain ⟨m₁, hrelease, hruns⟩ := releaseRegions_returns hassert htenant.freeList.chain_zero
    (fun hmem => htenant.arena_notMem (htenant.mem_region (List.mem_append_left _ hmem)))
    htenant.toHeap.length_free_lt
  obtain ⟨harenas, hnode⟩ := releaseRegions_frame hrelease
  have hdefault : Sound platform m₁ platform.storage free ((metadata a).header :: busy) region := by
    refine h.other (fun x hx => hnode x ?_) (congrFun harenas _)
      (ArenaUse.storage_mem_reserved platform m₁) fun x hx => ?_
    · rintro rfl
      exact hx.elim hne.symm hnot
    · obtain hstorage | ⟨run, hrun, hxrun⟩ := h.region_reserved hx
      · exact Or.inl hstorage
      · -- a run with a byte of the default arena does not lie in a block of the other one
        refine Or.inr ⟨run, hruns run hrun fun y hy hin => ?_, hxrun⟩
        have hxy : x ∈ extent (m.tile y) :=
          ⟨Nat.le_trans hin.1 hxrun.1, Nat.lt_of_lt_of_le hxrun.2 hin.2⟩
        have hx' : x ∈ region' :=
          htenant.tiles.mem_region (List.mem_map_of_mem (List.mem_append_left _ hy)) hxy
        exact Set.disjoint_left.mp hdisjoint hx' hx
  obtain ⟨m', free₁, hfree, hsound, -, -⟩ := hdefault.release
  have hbehind : (metadata a).header + sizeofHeader = a := hoffers.behind.symm
  rw [hbehind, platform.check_of_not hassert] at hfree
  refine ⟨m', free₁, ?_, hsound⟩
  simp only [deleteArena, hassert, Bool.false_eq_true, false_and, if_false, hcount,
    platform.check_of_not hassert, not_true_eq_false, ne_eq, hrelease, hfree, Option.map_some,
    Option.bind_eq_bind, Option.bind_some, Option.pure_def]

/-- With assertions the default arena has been constructed once more when the metadata is freed, and
its count is 0. -/
theorem deleteArena_aborts (hassert : platform.assertions = true)
    (h : Sound platform m platform.storage free busy region)
    (hbusy : (metadata a).header ∈ busy) (hoffers : m.Offers (metadata a))
    (hcount : (m.arena a).allocationCount = 0) : m.deleteArena platform a = none := by
  have hmem : (metadata a).header ∈ free ++ busy := List.mem_append_right _ hbusy
  obtain ⟨hregion, hnot⟩ := h.toHeap.metadata_notMem hoffers hmem
  set e := (metadata a).header
  have hbehind : a = e + sizeofHeader := hoffers.behind
  have hne : platform.storage ≠ a := fun heq => h.arena_notMem (heq ▸ hregion)
  have hea : e ≠ a := fun heq => hnot (heq ▸ hmem)
  have hstorage : e ≠ platform.storage := h.ne_arena hmem
  set m₁ := m.unhookedArena platform
  have hnode₁ : ∀ x, x ≠ platform.storage → m₁.node x = m.node x :=
    fun x hx => Function.update_of_ne hx ..
  have hcount₁ : (m₁.arena a).allocationCount = 0 := by
    rw [show m₁.arena a = m.arena a from Function.update_of_ne hne.symm .., hcount]
  have hdelete : m.deleteArena platform a =
      (platform.check (¬ a = platform.storage)).bind fun _ =>
        (releaseRegions platform a (2 ^ 64) m₁).bind fun m =>
          (m.free platform a).bind fun m => some (true, m) := by
    simp only [deleteArena, hassert, metadata_ne_zero hoffers, ne_eq, not_false_eq_true, and_self,
      if_true, true_and]
    change ((platform.check _).bind fun _ => if ¬ (m₁.arena a).allocationCount = 0 then _ else _) =
      _
    rw [hcount₁]
    rfl
  rw [hdelete]
  cases hrelease : releaseRegions platform a (2 ^ 64) m₁ with
  | none => cases platform.check (¬ a = platform.storage) <;> rfl
  | some m₂ =>
    obtain ⟨harenas, hnode₂⟩ := releaseRegions_frame hrelease
    have hnode : m₂.node e = m.node e := (hnode₂ e hea).trans (hnode₁ e hstorage)
    obtain ⟨hmagic, hparent⟩ := h.marked e hbusy
    have hconstructed : Sound platform m₁ platform.storage [] [] ∅ :=
      sound_constructArena platform (ArenaUse.storage_mem_reserved platform m)
    have htile : m₂.tile e = m.tile e := by rw [tile, hnode, tile]
    have hin : ∀ x ∈ extent (m₂.tile e), x ∈ region := fun x hx =>
      h.tiles.mem_region (List.mem_map_of_mem hmem) (htile ▸ hx)
    have hheap : Heap platform m₂ platform.storage [] [e] (extent (m₂.tile e) ∪ ∅) := by
      refine Heap.add (hconstructed.toHeap.congr (hnode₂ _ hne) (by simp) (by simp)
        ⟨_, _, congrFun harenas _⟩) ?_ (Set.disjoint_empty _)
        (fun hx => h.arena_notMem (hin _ hx)) fun x hx => h.region_lt x (hin x hx)
      rw [hnode]
      exact h.size_le e hmem
    obtain ⟨m₃, free', hadd, -, -, hframe, -⟩ :=
      hheap.addToFreelist List.Pairwise.nil (by rw [hnode, hmagic]) (by rw [hnode, hparent])
    have hcount₃ : (m₃.arena platform.storage).allocationCount = 0 := by
      rw [hframe.count, harenas]
      exact hconstructed.count
    have hfree : m₂.free platform a = none := by
      rw [hbehind] at hoffers ⊢
      simp only [Memory.free, metadata_ne_zero hoffers, if_false, Nat.add_sub_cancel, hnode,
        hparent, hadd, hcount₃, Option.bind_eq_bind, Option.bind_some]
      simp [Platform.check, hassert]
    simp only [Option.bind_some, hfree]
    cases platform.check (¬ a = platform.storage) <;> rfl

end Memory
end CppGuard
