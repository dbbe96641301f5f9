import Mathlib.Data.List.Nodup
import Mathlib.Logic.Function.Basic

/-!
# Counted lists

A list of keys with their counts, and room for `capacity` keys. Acquiring a key increments
its count, or appends it; releasing it decrements the count, or removes the key, whose place
the last entry takes. `Counts es f` says that `es` lists the keys that `f` counts.
-/
namespace CountedList

/-- What closes the gap of a removed entry: the last entry moves to its place. -/
def closeGap {α : Type*} (b : List α) : List α :=
  match b.getLast? with
  | none => []
  | some z => z :: b.dropLast

theorem closeGap_concat {α : Type*} (b : List α) (z : α) : closeGap (b ++ [z]) = z :: b := by
  simp [closeGap]

theorem closeGap_perm {α : Type*} (b : List α) : (closeGap b).Perm b := by
  obtain rfl | ⟨b, z, rfl⟩ := List.eq_nil_or_concat' b
  · simp [closeGap]
  · simpa [closeGap_concat] using (List.perm_append_singleton z b).symm

variable {κ : Type*} [DecidableEq κ]

def keys (es : List (κ × Nat)) : List κ := es.map Prod.fst

omit [DecidableEq κ] in
@[simp] theorem keys_append (es fs : List (κ × Nat)) : keys (es ++ fs) = keys es ++ keys fs :=
  List.map_append

omit [DecidableEq κ] in
@[simp] theorem keys_cons (e : κ × Nat) (es : List (κ × Nat)) : keys (e :: es) = e.1 :: keys es :=
  rfl

omit [DecidableEq κ] in
theorem mem_keys {k : κ} {es : List (κ × Nat)} : k ∈ keys es ↔ ∃ n, (k, n) ∈ es := by
  simp [keys]

omit [DecidableEq κ] in
/-- A key that is listed splits the list at its first entry. -/
theorem exists_split {k : κ} {es : List (κ × Nat)} (h : k ∈ keys es) :
    ∃ a n b, es = a ++ (k, n) :: b ∧ k ∉ keys a := by
  induction es with
  | nil => simp [keys] at h
  | cons e es ih =>
    by_cases he : e.1 = k
    · exact ⟨[], e.2, es, by simp [← he], by simp [keys]⟩
    · obtain ⟨a, n, b, rfl, ha⟩ := ih (by simpa [Ne.symm he] using h)
      exact ⟨e :: a, n, b, rfl, by simpa [Ne.symm he] using ha⟩

def increment (k : κ) : List (κ × Nat) → List (κ × Nat)
  | [] => []
  | (k', n) :: es => if k' = k then (k', n + 1) :: es else (k', n) :: increment k es

def acquire (capacity : Nat) (k : κ) (es : List (κ × Nat)) : List (κ × Nat) :=
  if k ∈ keys es then increment k es
  else if es.length = capacity then es
  else es ++ [(k, 1)]

def release (k : κ) : List (κ × Nat) → List (κ × Nat)
  | [] => []
  | (k', n) :: es =>
    if k' = k then if n = 1 then closeGap es else (k', n - 1) :: es
    else (k', n) :: release k es

theorem acquire_absent (capacity : Nat) {k : κ} {es : List (κ × Nat)} (h : k ∉ keys es) :
    acquire capacity k es = if es.length = capacity then es else es ++ [(k, 1)] := if_neg h

theorem acquire_split (capacity : Nat) {k : κ} {n : Nat} {a b : List (κ × Nat)}
    (ha : k ∉ keys a) : acquire capacity k (a ++ (k, n) :: b) = a ++ (k, n + 1) :: b := by
  unfold acquire
  rw [if_pos (by simp)]
  induction a with
  | nil => simp [increment]
  | cons e a ih =>
    simp only [keys_cons, List.mem_cons, not_or] at ha
    simp [increment, Ne.symm ha.1, ih ha.2]

theorem release_absent {k : κ} {es : List (κ × Nat)} (h : k ∉ keys es) : release k es = es := by
  induction es with
  | nil => rfl
  | cons e es ih =>
    simp only [keys_cons, List.mem_cons, not_or] at h
    simp [release, Ne.symm h.1, ih h.2]

theorem release_split {k : κ} {n : Nat} {a b : List (κ × Nat)} (ha : k ∉ keys a) :
    release k (a ++ (k, n) :: b) =
      a ++ if n = 1 then closeGap b else (k, n - 1) :: b := by
  induction a with
  | nil => simp [release]
  | cons e a ih =>
    simp only [keys_cons, List.mem_cons, not_or] at ha
    simp [release, Ne.symm ha.1, ih ha.2]

/-- The entries of `es` are the keys that `f` counts, with their counts. -/
structure Counts (es : List (κ × Nat)) (f : κ → Nat) : Prop where
  nodup : (keys es).Nodup
  mem : ∀ k n, (k, n) ∈ es ↔ 0 < n ∧ f k = n

namespace Counts

variable {es : List (κ × Nat)} {f : κ → Nat}

omit [DecidableEq κ] in
theorem nil : Counts ([] : List (κ × Nat)) fun _ => 0 :=
  ⟨by simp [keys], fun k n => by simp; omega⟩

omit [DecidableEq κ] in
theorem mem_keys (h : Counts es f) (k : κ) : k ∈ keys es ↔ 0 < f k := by
  rw [CountedList.mem_keys]
  constructor
  · rintro ⟨n, hn⟩
    obtain ⟨hpos, rfl⟩ := (h.mem k n).mp hn
    exact hpos
  · exact fun hpos => ⟨f k, (h.mem k (f k)).mpr ⟨hpos, rfl⟩⟩

omit [DecidableEq κ] in
theorem eq_nil (h : Counts es f) (hf : ∀ k, f k = 0) : es = [] := by
  apply List.eq_nil_iff_forall_not_mem.mpr
  rintro ⟨k, n⟩ hmem
  obtain ⟨hpos, hn⟩ := (h.mem k n).mp hmem
  have := hf k
  omega

omit [DecidableEq κ] in
/-- The key of an entry does not occur before or after it. -/
theorem notMem_of_split {k : κ} {n : Nat} {a b : List (κ × Nat)}
    (h : Counts (a ++ (k, n) :: b) f) : k ∉ keys a ∧ k ∉ keys b := by
  have hnodup := h.nodup
  rw [keys_append, keys_cons, List.nodup_append] at hnodup
  obtain ⟨-, hb, hdisjoint⟩ := hnodup
  exact ⟨fun hk => hdisjoint k hk k List.mem_cons_self rfl, (List.nodup_cons.mp hb).1⟩

/-- One entry has changed. -/
theorem replace {k : κ} {n m : Nat} {a b : List (κ × Nat)} (h : Counts (a ++ (k, n) :: b) f)
    (hm : 0 < m) : Counts (a ++ (k, m) :: b) (Function.update f k m) := by
  obtain ⟨ha, hb⟩ := h.notMem_of_split
  refine ⟨by simpa using h.nodup, fun k' n' => ?_⟩
  by_cases hk : k' = k
  · subst hk
    have ha' : (k', n') ∉ a := fun hmem => ha (CountedList.mem_keys.mpr ⟨n', hmem⟩)
    have hb' : (k', n') ∉ b := fun hmem => hb (CountedList.mem_keys.mpr ⟨n', hmem⟩)
    simp only [List.mem_append, List.mem_cons, Prod.mk.injEq, true_and, ha', hb', false_or,
      or_false, Function.update_self]
    omega
  · have := h.mem k' n'
    simpa [hk] using this

theorem acquire {capacity : Nat} (h : Counts es f) (k : κ)
    (room : k ∈ keys es ∨ es.length ≠ capacity) :
    Counts (acquire capacity k es) (Function.update f k (f k + 1)) := by
  by_cases hk : k ∈ keys es
  · obtain ⟨a, n, b, rfl, ha⟩ := exists_split hk
    obtain ⟨-, rfl⟩ := (h.mem k n).mp (by simp)
    rw [acquire_split capacity ha]
    exact h.replace (Nat.succ_pos _)
  · have hzero : f k = 0 := by
      have := (h.mem_keys k).not.mp hk
      omega
    rw [acquire_absent capacity hk, if_neg (room.resolve_left hk), hzero]
    refine ⟨?_, fun k' n' => ?_⟩
    · rw [keys_append]
      apply h.nodup.append (by simp [keys])
      intro k' hk' hmem
      obtain rfl : k' = k := by simpa [keys] using hmem
      exact hk hk'
    · by_cases hk' : k' = k
      · subst hk'
        have habsent : (k', n') ∉ es := fun hmem => hk (CountedList.mem_keys.mpr ⟨n', hmem⟩)
        simp [habsent]
        omega
      · have := h.mem k' n'
        simpa [hk'] using this

theorem release (h : Counts es f) (k : κ) :
    Counts (release k es) (Function.update f k (f k - 1)) := by
  by_cases hk : k ∈ keys es
  · obtain ⟨a, n, b, rfl, ha⟩ := exists_split hk
    obtain ⟨hpos, hn⟩ := (h.mem k n).mp (by simp)
    rw [release_split ha, hn]
    split_ifs with hone
    · have hgap := closeGap_perm b
      obtain ⟨-, hb⟩ := h.notMem_of_split
      refine ⟨?_, fun k' n' => ?_⟩
      · have hperm := (((hgap.append_left a).map Prod.fst).nodup_iff).mpr
        apply hperm
        have hnodup := h.nodup
        simp only [keys, List.map_append, List.map_cons] at hnodup ⊢
        exact hnodup.sublist ((List.sublist_cons_self _ _).append_left _)
      · rw [List.mem_append, hgap.mem_iff]
        by_cases hk' : k' = k
        · subst hk'
          have ha' : (k', n') ∉ a := fun hmem => ha (CountedList.mem_keys.mpr ⟨n', hmem⟩)
          have hb' : (k', n') ∉ b := fun hmem => hb (CountedList.mem_keys.mpr ⟨n', hmem⟩)
          simp [ha', hb', hone]
          omega
        · have := h.mem k' n'
          simpa [hk'] using this
    · exact h.replace (by omega)
  · have hzero : f k = 0 := by
      have := (h.mem_keys k).not.mp hk
      omega
    have hself : Function.update f k (f k - 1) = f := by
      simp [hzero]
    rw [release_absent hk, hself]
    exact h

end Counts
end CountedList
