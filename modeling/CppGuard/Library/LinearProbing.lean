import Mathlib.Data.Finset.Card
import Mathlib.Data.Finset.Prod
import Mathlib.Data.List.Count
import Mathlib.Data.Nat.ModEq
import Mathlib.Tactic.Ring

/-!
# Open addressing with linear probing and tombstones

A table is a list of cells; a key is looked up by walking cyclically from its home
position until the key or a vacant cell is met. Deleting a key leaves a tombstone,
so that the walks of other keys are not cut. The predicate `Placed` is the invariant
of such a table: every key occurs once and no vacant cell lies on the way to it.
The lemmas say how `Placed`, membership and the number of used cells change when
one cell is written.
-/
namespace LinearProbing

variable {α : Type*}

inductive Cell (α : Type*) where
  | vacant
  | deleted
  | full (a : α)
  deriving DecidableEq, Repr

/-- The cell reached after `d` steps from `home`. -/
def probeAt (size home d : Nat) : Nat := (home + d) % size

theorem probeAt_lt {size : Nat} (home d : Nat) (h : 0 < size) : probeAt size home d < size :=
  Nat.mod_lt _ h

theorem probeAt_succ (size home d : Nat) :
    (probeAt size home d + 1) % size = probeAt size home (d + 1) := by
  simp [probeAt, Nat.add_assoc]

/-- A walk of `size` steps visits every cell. -/
theorem exists_probeAt {size i : Nat} (home : Nat) (hi : i < size) :
    ∃ d < size, probeAt size home d = i := by
  have hpos : 0 < size := by omega
  have hh : home % size < size := Nat.mod_lt _ hpos
  refine ⟨(i + (size - home % size)) % size, Nat.mod_lt _ hpos, ?_⟩
  have key : home % size + (i + (size - home % size)) = i + size := by omega
  calc (home + (i + (size - home % size)) % size) % size
      = (home % size + (i + (size - home % size))) % size := by
        simp [Nat.add_mod]
    _ = i := by rw [key, Nat.add_mod_right, Nat.mod_eq_of_lt hi]

/-- The invariant of the table, for the home positions given by `home`. -/
structure Placed (home : α → Nat) (t : List (Cell α)) : Prop where
  unique : ∀ (i j : Nat) (a : α), t[i]? = some (.full a) → t[j]? = some (.full a) → i = j
  reached : ∀ (i : Nat) (a : α), t[i]? = some (.full a) → ∃ d < t.length,
    i = probeAt t.length (home a) d ∧
      ∀ e < d, t[probeAt t.length (home a) e]? ≠ some .vacant

theorem Placed.replicate (home : α → Nat) (n : Nat) :
    Placed home (List.replicate n .vacant) := by
  constructor <;> intro i <;> simp [List.getElem?_replicate]

/-- A vacant cell ends the search: a key not met before it is not in the table. -/
theorem Placed.notMem_of_vacant {home : α → Nat} {t : List (Cell α)} (h : Placed home t)
    {a : α} {d : Nat} (hd : t[probeAt t.length (home a) d]? = some .vacant)
    (before : ∀ e < d, t[probeAt t.length (home a) e]? ≠ some (.full a)) :
    Cell.full a ∉ t := by
  intro ha
  obtain ⟨i, hi⟩ := List.mem_iff_getElem?.mp ha
  obtain ⟨c, _, rfl, novacant⟩ := h.reached i a hi
  rcases lt_trichotomy c d with hc | rfl | hc
  · exact before c hc hi
  · rw [hi] at hd; cases hd
  · exact novacant d hc hd

/-- Write a fresh key into a cell that its walk reaches. -/
theorem Placed.insert {home : α → Nat} {t : List (Cell α)} (h : Placed home t)
    {a : α} {d : Nat} (hd : d < t.length) (fresh : Cell.full a ∉ t)
    (before : ∀ e < d, t[probeAt t.length (home a) e]? ≠ some .vacant) :
    Placed home (t.set (probeAt t.length (home a) d) (.full a)) := by
  have hlt := probeAt_lt (home a) d (show 0 < t.length by omega)
  have old : ∀ (i : Nat) (b : α), i ≠ probeAt t.length (home a) d →
      (t.set (probeAt t.length (home a) d) (.full a))[i]? = some (.full b) →
      t[i]? = some (.full b) := by
    intro i b hi hb
    rwa [List.getElem?_set_ne (Ne.symm hi)] at hb
  have notA : ∀ i : Nat, t[i]? ≠ some (.full a) := fun i hi => fresh (List.mem_of_getElem? hi)
  constructor
  · intro i j b hi hj
    by_cases ei : i = probeAt t.length (home a) d <;> by_cases ej : j = probeAt t.length (home a) d
    · rw [ei, ej]
    · rw [ei, List.getElem?_set_self hlt] at hi
      obtain rfl : a = b := by simpa using hi
      exact absurd (old j a ej hj) (notA j)
    · rw [ej, List.getElem?_set_self hlt] at hj
      obtain rfl : a = b := by simpa using hj
      exact absurd (old i a ei hi) (notA i)
    · exact h.unique i j b (old i b ei hi) (old j b ej hj)
  · intro i b hi
    simp only [List.length_set]
    by_cases ei : i = probeAt t.length (home a) d
    · rw [ei, List.getElem?_set_self hlt] at hi
      obtain rfl : a = b := by simpa using hi
      refine ⟨d, hd, ei, fun e he hv => ?_⟩
      rw [List.getElem?_set] at hv
      split_ifs at hv
      · cases hv
      · exact before e he hv
    · obtain ⟨c, hc, hic, novacant⟩ := h.reached i b (old i b ei hi)
      refine ⟨c, hc, hic, fun e he hv => ?_⟩
      rw [List.getElem?_set] at hv
      split_ifs at hv
      · cases hv
      · exact novacant e he hv

/-- Replace a key by a tombstone. -/
theorem Placed.erase {home : α → Nat} {t : List (Cell α)} (h : Placed home t) (i : Nat) :
    Placed home (t.set i .deleted) := by
  have old : ∀ (j : Nat) (b : α), (t.set i .deleted)[j]? = some (.full b) →
      t[j]? = some (.full b) := by
    intro j b hb
    rw [List.getElem?_set] at hb
    split_ifs at hb
    · cases hb
    · exact hb
  constructor
  · exact fun j k b hj hk => h.unique j k b (old j b hj) (old k b hk)
  · intro j b hj
    obtain ⟨c, hc, hjc, novacant⟩ := h.reached j b (old j b hj)
    refine ⟨c, by simpa using hc, by simpa using hjc, fun e he hv => ?_⟩
    simp only [List.length_set] at hv
    rw [List.getElem?_set] at hv
    split_ifs at hv
    · cases hv
    · exact novacant e he hv

/-! ## Membership -/

theorem full_mem_set {t : List (Cell α)} {i : Nat} {a b : α} (hi : i < t.length)
    (free : ∀ c, t[i]? ≠ some (.full c)) :
    Cell.full b ∈ t.set i (.full a) ↔ b = a ∨ Cell.full b ∈ t := by
  simp only [List.mem_iff_getElem?]
  constructor
  · rintro ⟨j, hj⟩
    rw [List.getElem?_set] at hj
    split_ifs at hj with hji
    · exact Or.inl (by simpa using hj.symm)
    · exact Or.inr ⟨j, hj⟩
  · rintro (rfl | ⟨j, hj⟩)
    · exact ⟨i, List.getElem?_set_self hi⟩
    · have hji : i ≠ j := by rintro rfl; exact free b hj
      exact ⟨j, by rw [List.getElem?_set_ne hji]; exact hj⟩

theorem Placed.full_mem_erase {home : α → Nat} {t : List (Cell α)} (h : Placed home t)
    {i : Nat} {a b : α} (hi : t[i]? = some (.full a)) :
    Cell.full b ∈ t.set i .deleted ↔ b ≠ a ∧ Cell.full b ∈ t := by
  simp only [List.mem_iff_getElem?]
  constructor
  · rintro ⟨j, hj⟩
    rw [List.getElem?_set] at hj
    split_ifs at hj with hji
    · cases hj
    · exact ⟨fun hba => hji (h.unique i j b (hba ▸ hi) hj), j, hj⟩
  · rintro ⟨hne, j, hj⟩
    have hji : i ≠ j := by
      rintro rfl
      rw [hi] at hj
      exact hne (by simpa using hj.symm)
    exact ⟨j, by rw [List.getElem?_set_ne hji]; exact hj⟩

/-! ## Tables for few keys -/

theorem probeAt_inj {size home d e : Nat} (hd : d < size) (he : e < size)
    (h : probeAt size home d = probeAt size home e) : d = e :=
  (Nat.ModEq.add_left_cancel' home h).eq_of_lt_of_lt hd he

/-- A walk over cells that hold keys meets each key at most once. -/
theorem Placed.walk_le_card {home : α → Nat} {t : List (Cell α)} (h : Placed home t)
    {keys : Finset α} {a : α} {d : Nat} (hd : d ≤ t.length)
    (hfull : ∀ e < d, ∃ b ∈ keys, t[probeAt t.length (home a) e]? = some (.full b)) :
    d ≤ keys.card := by
  have : Nonempty α := ⟨a⟩
  choose! key hkey hcell using hfull
  rw [← Finset.card_range d]
  refine Finset.card_le_card_of_injOn key (fun e he => hkey e (Finset.mem_range.mp he)) ?_
  intro e he e' he' heq
  have he : e < d := Finset.mem_range.mp he
  have he' : e' < d := Finset.mem_range.mp he'
  have hcell' := hcell e' he'
  rw [← heq] at hcell'
  exact probeAt_inj (he.trans_le hd) (he'.trans_le hd) (h.unique _ _ _ (hcell e he) hcell')

/-- Every cell that is not vacant lies near the home of one of the keys. -/
def Near (home : α → Nat) (keys : Finset α) (t : List (Cell α)) : Prop :=
  ∀ i < t.length, t[i]? ≠ some .vacant →
    ∃ a ∈ keys, ∃ d < keys.card, i = probeAt t.length (home a) d

variable {home : α → Nat} {keys : Finset α} {t : List (Cell α)} {i : Nat}

theorem Near.replicate (home : α → Nat) (keys : Finset α) (n : Nat) :
    Near home keys (List.replicate n .vacant) := by
  intro i hi hused
  rw [List.length_replicate] at hi
  simp [hi] at hused

/-- A cell near one of the keys is written, or one that was not vacant. -/
theorem Near.set (h : Near home keys t) (c : Cell α) (hi : t[i]? ≠ some .vacant ∨
    ∃ a ∈ keys, ∃ d < keys.card, i = probeAt t.length (home a) d) :
    Near home keys (t.set i c) := by
  intro j hj hused
  rw [List.length_set] at hj ⊢
  by_cases hij : i = j
  · subst hij
    exact hi.elim (h i hj) id
  · rw [List.getElem?_set_ne hij] at hused
    exact h j hj hused

/-! ## Used cells -/

variable [DecidableEq α]

/-- The number of cells that are not vacant; tombstones count. -/
def used (t : List (Cell α)) : Nat := t.countP (fun c => decide (c ≠ .vacant))

theorem used_replicate (n : Nat) : used (List.replicate n (Cell.vacant : Cell α)) = 0 := by
  simp [used]

/-- A table that is not completely used has a vacant cell. -/
theorem exists_vacant {t : List (Cell α)} (h : used t < t.length) :
    ∃ i : Nat, t[i]? = some .vacant := by
  by_contra hne
  push Not at hne
  have hall : ∀ c ∈ t, decide (c ≠ Cell.vacant) = true := by
    intro c hc
    obtain ⟨i, hi⟩ := List.mem_iff_getElem?.mp hc
    have := hne i
    simp only [ne_eq, decide_eq_true_eq]
    rintro rfl
    exact this hi
  rw [used, List.countP_eq_length.mpr hall] at h
  exact lt_irrefl _ h

theorem used_set {t : List (Cell α)} {i : Nat} {c c' : Cell α} (hi : t[i]? = some c)
    (hc' : c' ≠ .vacant) : used (t.set i c') = used t + if c = .vacant then 1 else 0 := by
  obtain ⟨hlt, rfl⟩ := List.getElem?_eq_some_iff.mp hi
  have hpos : t[i] ≠ .vacant → 0 < used t := fun h =>
    List.countP_pos_iff.mpr ⟨t[i], List.getElem_mem hlt, by simpa using h⟩
  unfold used at *
  rw [List.countP_set hlt]
  by_cases hv : t[i] = .vacant
  · simp [hv, hc']
  · have := hpos hv
    simp only [ne_eq, hv, not_false_eq_true, decide_true, if_true, hc', if_false, Nat.add_zero]
    exact Nat.sub_add_cancel this

theorem used_le_card {cells : Finset Nat}
    (h : ∀ i < t.length, t[i]? ≠ some .vacant → i ∈ cells) : used t ≤ cells.card := by
  induction t using List.reverseRecOn generalizing cells with
  | nil => exact Nat.zero_le _
  | append_singleton t c ih =>
    have hbefore : ∀ i < t.length, t[i]? ≠ some .vacant → i ∈ cells.erase t.length := by
      intro i hi hused
      refine Finset.mem_erase.mpr ⟨hi.ne, h i (by simp; omega) ?_⟩
      rwa [List.getElem?_append_left hi]
    have hle := ih hbefore
    unfold used at hle ⊢
    rw [List.countP_append, List.countP_singleton]
    by_cases hc : c = .vacant
    · simp only [hc, ne_eq, not_true_eq_false, decide_false, Bool.false_eq_true, if_false]
      exact hle.trans (Finset.card_le_card (Finset.erase_subset _ _))
    · have hmem : t.length ∈ cells := h t.length (by simp) (by simp [hc])
      simp only [ne_eq, hc, not_false_eq_true, decide_true, if_true]
      rw [← Finset.card_erase_add_one hmem]
      exact Nat.add_le_add_right hle 1

/-- So a table is used no more than the keys need, however often they come and go. -/
theorem Near.used_le (h : Near home keys t) : used t ≤ keys.card * keys.card := by
  have hcells : ∀ i < t.length, t[i]? ≠ some .vacant →
      i ∈ (keys ×ˢ Finset.range keys.card).image fun p => probeAt t.length (home p.1) p.2 := by
    intro i hi hused
    obtain ⟨a, ha, d, hd, rfl⟩ := h i hi hused
    exact Finset.mem_image.mpr
      ⟨(a, d), Finset.mem_product.mpr ⟨ha, Finset.mem_range.mpr hd⟩, rfl⟩
  refine (used_le_card hcells).trans (Finset.card_image_le.trans ?_)
  rw [Finset.card_product, Finset.card_range]

end LinearProbing
