import CppGuard.LowLevelAlloc.Heap

/-!
# The search for a free block

A block that is large enough is linked on the level that the search follows, so the search finds the
first one.
-/
namespace CppGuard
open LinkedChain

/-! ## Rounding -/

/-- The mask `~(2 ^ k - 1)` clears the last bits. -/
theorem and_mask {x k : Nat} (hx : x < 2 ^ 64) (hk : k ≤ 64) :
    x &&& (2 ^ 64 - 2 ^ k) = x / 2 ^ k * 2 ^ k := by
  have hpos : 0 < 2 ^ k := Nat.two_pow_pos k
  have hlt : 2 ^ k - 1 < 2 ^ 64 := by
    have := Nat.pow_le_pow_right (by decide : 0 < 2) hk
    omega
  have hmask : 2 ^ 64 - 2 ^ k = 2 ^ 64 - ((2 ^ k - 1) + 1) := by omega
  apply Nat.eq_of_testBit_eq
  intro i
  rw [Nat.testBit_and, hmask, Nat.testBit_two_pow_sub_succ hlt, Nat.testBit_two_pow_sub_one,
    Nat.testBit_mul_two_pow, Nat.testBit_div_two_pow]
  by_cases hi : k ≤ i
  · by_cases hbit : i < 64
    · simp [hi, hbit, Nat.not_lt.mpr hi]
    · have hfalse : x.testBit i = false := by
        refine Nat.testBit_lt_two_pow (Nat.lt_of_lt_of_le hx ?_)
        exact Nat.pow_le_pow_right (by decide) (Nat.not_lt.mp hbit)
      simp [hi, hfalse]
  · simp [hi, Nat.not_le.mp hi]

theorem checkedAdd_eq_some {a b sum : Nat} :
    checkedAdd a b = some sum ↔ sum = a + b ∧ a + b < 2 ^ 64 := by
  unfold checkedAdd
  split_ifs with h
  · constructor
    · exact fun hsum => ⟨(Option.some.inj hsum).symm, h⟩
    · exact fun hsum => congrArg some hsum.1.symm
  · exact ⟨nofun, fun hsum => absurd hsum.2 h⟩

/-- The next multiple of a power of two. -/
theorem roundUp_eq_some {addr k r : Nat} (hk : k ≤ 64) (h : roundUp addr (2 ^ k) = some r) :
    addr ≤ r ∧ r < addr + 2 ^ k ∧ r % 2 ^ k = 0 ∧ r < 2 ^ 64 := by
  obtain ⟨sum, hsum, rfl⟩ := Option.map_eq_some_iff.mp h
  obtain ⟨rfl, hlt⟩ := checkedAdd_eq_some.mp hsum
  rw [and_mask hlt hk]
  have hpos : 0 < 2 ^ k := Nat.two_pow_pos k
  have hmod := Nat.mod_lt (addr + (2 ^ k - 1)) hpos
  have hdiv := Nat.div_add_mod' (addr + (2 ^ k - 1)) (2 ^ k)
  exact ⟨by omega, by omega, Nat.mul_mod_left .., by omega⟩

namespace Memory

variable {σ : Type} {platform : Platform σ} {m m' : Memory σ} {arena a s : Nat} {i r : Nat}
  {free busy : List Nat} {region : Set Nat}

/-! ## The loop -/

theorem find?_filter_of_imp {α : Type*} {p q : α → Bool} {l : List α}
    (h : ∀ x ∈ l, q x = true → p x = true) : (l.filter p).find? q = l.find? q := by
  induction l with
  | nil => rfl
  | cons x l ih =>
    obtain ⟨hx, hl⟩ := List.forall_mem_cons.mp h
    cases hq : q x with
    | true => rw [List.filter_cons_of_pos (hx hq), List.find?_cons_of_pos hq,
        List.find?_cons_of_pos hq]
    | false =>
      rw [List.find?_cons_of_neg (by simp [hq]), ← ih hl, List.filter_cons]
      split_ifs
      · exact List.find?_cons_of_neg (by simp [hq])
      · rfl

/-- Whether the block has `r` bytes. -/
def fits (m : Memory σ) (r : Nat) (s : Nat) : Bool := r ≤ (m.node s).size

/-- The search goes on with the blocks `v` of a level. No sanity check fails. -/
theorem Heap.findFrom (h : Heap platform m arena free busy region) {v : List Nat}
    (hchain : Chain (fun x => (m.node x).next i) ((m.node a).next i) v)
    (hv : ∀ x ∈ v, x ∈ free ∧ i < (m.node x).levels) (hapart : m.Apart v)
    (hlevel : i < (m.node a).levels) (hbehind : a ≠ arena → ∀ x ∈ v, a + (m.node a).size < x)
    {fuel : Nat} (hfuel : v.length < fuel) :
    m.findFrom platform arena i r fuel a = some (v.find? (m.fits r)) := by
  induction v generalizing a fuel with
  | nil =>
    obtain ⟨fuel, rfl⟩ := Nat.exists_eq_succ_of_ne_zero (Nat.ne_of_gt hfuel)
    have hnext : (m.node a).next i = none := hchain
    simp only [Memory.findFrom, Memory.next, platform.check_of hlevel, hnext, Option.bind_eq_bind,
      Option.bind_some]
    rfl
  | cons n v ih =>
    obtain ⟨fuel, rfl⟩ := Nat.exists_eq_succ_of_ne_zero (Nat.ne_zero_of_lt hfuel)
    obtain ⟨hn, hv⟩ := List.forall_mem_cons.mp hv
    obtain ⟨hnv, hapart⟩ := List.pairwise_cons.mp hapart
    obtain ⟨hmagic, hparent⟩ := h.unallocated n hn.1
    have hnext : (m.node a).next i = some n := hchain.1
    have horder : a ≠ arena → a < n ∧ a + (m.node a).size < n := by
      intro ha
      have hlt := hbehind ha n List.mem_cons_self
      exact ⟨Nat.lt_of_le_of_lt (Nat.le_add_right _ _) hlt, hlt⟩
    have hfound : m.next platform i a arena = some (some n) := by
      simp only [Memory.next, platform.check_of hlevel, hnext, platform.check_of hmagic,
        platform.check_of hparent, platform.check_of horder, Option.bind_eq_bind, Option.bind_some,
        Option.pure_def]
    simp only [Memory.findFrom, hfound, Option.bind_eq_bind, Option.bind_some]
    by_cases hlt : (m.node n).size < r
    · rw [if_pos hlt, List.find?_cons_of_neg (by simpa [fits] using hlt)]
      exact ih hchain.2 hv hapart hn.2 (fun _ => hnv) (Nat.lt_of_succ_lt_succ hfuel)
    · rw [if_neg hlt, List.find?_cons_of_pos (by simpa [fits] using hlt)]
      rfl

/-- A block that is large enough is linked on the level of the search. -/
theorem Heap.linked (h : Heap platform m arena free busy region) (hs : s ∈ free)
    (hfits : m.fits r s = true) : levelsOf r 1 ≤ (m.node s).levels := by
  obtain ⟨n, hn, hlevels⟩ := h.fitting s hs
  rw [hlevels]
  exact levelsOf_mono (of_decide_eq_true hfits) hn

/-- There are fewer blocks than addresses. -/
theorem Heap.length_free_lt (h : Heap platform m arena free busy region) :
    free.length < 2 ^ 64 := by
  have hlt : ∀ x : Nat, x ∈ free → x < 2 ^ 64 - 63 := by
    intro x hx
    have hmem := List.mem_append_left busy hx
    have hsize := h.size_le x hmem
    have hlast : x + (m.node x).size - 1 ∈ extent (m.tile x) := by
      rw [mem_extent, tile]
      omega
    have := h.region_lt _ (h.tiles.mem_region (List.mem_map_of_mem hmem) hlast)
    omega
  exact Nat.lt_of_le_of_lt (length_le_of_lt h.freeList.skip.sorted hlt) (by decide)

/-- The search finds the first block that is large enough. -/
theorem Heap.find (h : Heap platform m arena free busy region) (hapart : m.Apart free)
    (hr : 64 ≤ r) : m.find platform arena r = some (free.find? (m.fits r)) := by
  have hpos := levelsOf_pos hr (Nat.le_refl 1)
  simp only [Memory.find, h.minSize, platform.skiplistLevels_eq hr (Nat.le_refl 1),
    Option.bind_eq_bind, Option.bind_some]
  split_ifs with hlevel
  · set i := levelsOf r 1 - 1
    have hsub : ∀ x ∈ free.filter (fun x => i < (m.node x).levels),
        x ∈ free ∧ i < (m.node x).levels := by
      intro x hx
      exact ⟨List.mem_of_mem_filter hx, of_decide_eq_true (List.mem_filter.mp hx).2⟩
    have hlength := Nat.lt_of_le_of_lt (List.length_filter_le (fun x => i < (m.node x).levels) free)
      h.length_free_lt
    rw [h.findFrom (h.freeList.skip.chain i) hsub (hapart.filter _) hlevel
      (fun hne => absurd rfl hne) hlength, find?_filter_of_imp fun x hx hfits => ?_]
    have := h.linked hx hfits
    simp only [decide_eq_true_eq]
    omega
  · have hnone : free.find? (m.fits r) = none := by
      refine List.find?_eq_none.mpr fun x hx hfits => ?_
      have := h.linked hx hfits
      have := h.freeList.tall x hx
      omega
    rw [hnone]
    rfl

end Memory
end CppGuard
