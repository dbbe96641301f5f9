import Mathlib

/-!
# Lists with separators

Pieces of a list between separators, what is left of a list when both ends are trimmed, and lists
that are related piece by piece.
-/
namespace Separated

section Trim

variable {α : Type*} {p : α → Bool} {l : List α}

/-- The list without the elements at both ends that satisfy `p`. -/
def trim (p : α → Bool) (l : List α) : List α := (l.dropWhile p).rdropWhile p

@[simp] theorem trim_nil : trim p [] = [] := by simp [trim]

theorem trim_isInfix : trim p l <:+: l :=
  (List.rdropWhile_prefix p _).isInfix.trans (List.dropWhile_suffix p).isInfix

theorem mem_of_mem_trim {x : α} (h : x ∈ trim p l) : x ∈ l := trim_isInfix.subset h

theorem length_trim_le : (trim p l).length ≤ l.length := trim_isInfix.length_le

theorem trim_eq_self_iff :
    trim p l = l ↔ (∀ h : l ≠ [], ¬ p (l.head h)) ∧ ∀ h : l ≠ [], ¬ p (l.getLast h) := by
  constructor
  · intro htrim
    have hdrop : l.dropWhile p = l := by
      refine (List.dropWhile_suffix p).eq_of_length_le ?_
      have := (List.rdropWhile_prefix p (l.dropWhile p)).length_le
      exact (congrArg List.length htrim).symm.le.trans this
    have hright : l.rdropWhile p = l := by rwa [trim, hdrop] at htrim
    refine ⟨fun h => ?_, List.rdropWhile_eq_self_iff.mp hright⟩
    have := List.dropWhile_eq_self_iff.mp hdrop (List.length_pos_of_ne_nil h)
    simpa [List.head_eq_getElem] using this
  · rintro ⟨hhead, hlast⟩
    have hdrop : l.dropWhile p = l :=
      List.dropWhile_eq_self_iff.mpr fun h => by
        simpa [List.head_eq_getElem] using hhead (List.ne_nil_of_length_pos h)
    rw [trim, hdrop]
    exact List.rdropWhile_eq_self_iff.mpr hlast

theorem trim_of_forall_not (h : ∀ x ∈ l, ¬ p x) : trim p l = l :=
  trim_eq_self_iff.mpr ⟨fun hne => h _ (l.head_mem hne), fun hne => h _ (l.getLast_mem hne)⟩

theorem dropWhile_eq_drop : l.dropWhile p = l.drop (l.takeWhile p).length := by
  have hdrop : (l.takeWhile p ++ l.dropWhile p).drop (l.takeWhile p).length = l.dropWhile p :=
    List.drop_left
  rw [List.takeWhile_append_dropWhile] at hdrop
  exact hdrop.symm

/-- Both ends of what `trim` keeps, as positions. -/
theorem trim_eq_take_drop :
    trim p l = (l.drop (l.takeWhile p).length).take ((l.drop (l.takeWhile p).length).length -
      ((l.drop (l.takeWhile p).length).reverse.takeWhile p).length) := by
  rw [trim, dropWhile_eq_drop, List.rdropWhile, dropWhile_eq_drop, List.reverse_drop,
    List.reverse_reverse, List.length_reverse]

theorem not_head_trim (h : trim p l ≠ []) : ¬ p ((trim p l).head h) := by
  obtain ⟨rest, hrest⟩ : trim p l <+: l.dropWhile p := List.rdropWhile_prefix p _
  have hne : l.dropWhile p ≠ [] := by simp [← hrest, h]
  have hhead := List.head_dropWhile_not p hne
  simp only [← hrest, List.head_append_of_ne_nil h] at hhead
  simp [hhead]

@[simp] theorem trim_trim : trim p (trim p l) = trim p l :=
  trim_eq_self_iff.mpr ⟨not_head_trim, List.rdropWhile_last_not p _⟩

/-- A map that keeps what `p` says does not change what is trimmed. -/
theorem trim_map {f : α → α} (hf : ∀ x, p (f x) = p x) : trim p (l.map f) = (trim p l).map f := by
  have hcomp : p ∘ f = p := funext hf
  unfold trim List.rdropWhile
  rw [List.dropWhile_map, hcomp, ← List.map_reverse, List.dropWhile_map, hcomp, ← List.map_reverse]

end Trim

section Split

variable {α : Type*} [DecidableEq α] {a : α} {l piece : List α} {ls : List (List α)}

theorem splitOn_cons_self : (a :: l).splitOn a = [] :: l.splitOn a := by
  simp [List.splitOn_cons_eq_if_modifyHead]

theorem splitOn_cons_of_ne {x : α} (h : x ≠ a) :
    (x :: l).splitOn a = (l.splitOn a).modifyHead (x :: ·) := by
  simp [List.splitOn_cons_eq_if_modifyHead, h]

/-- The first piece is what comes before the first separator. -/
theorem splitOn_append_cons (h : a ∉ piece) :
    (piece ++ a :: l).splitOn a = piece :: l.splitOn a :=
  List.splitOn_append_cons_self_of_not_mem h l

/-- Lines with the separator at their ends. -/
theorem splitOn_flatten_append (h : ∀ line ∈ ls, a ∉ line) :
    ((ls.map (· ++ [a])).flatten ++ l).splitOn a = ls ++ l.splitOn a := by
  induction ls with
  | nil => rfl
  | cons line ls ih =>
    have hline := splitOn_append_cons (l := (ls.map (· ++ [a])).flatten ++ l)
      (h line List.mem_cons_self)
    simp only [List.map_cons, List.flatten_cons, List.append_assoc, List.cons_append,
      List.nil_append]
    rw [hline, ih fun line hline => h line (List.mem_cons_of_mem _ hline)]

theorem infix_of_mem_splitOn (h : piece ∈ l.splitOn a) : piece <:+: l := by
  have hjoin : [a].intercalate (l.splitOn a) = l := List.intercalate_splitOn a
  rw [← hjoin]
  generalize l.splitOn a = ls at h
  induction ls with
  | nil => cases h
  | cons head tail ih =>
    cases tail with
    | nil =>
      obtain rfl := List.mem_singleton.mp h
      simp
    | cons next rest =>
      rw [List.intercalate_cons_cons]
      obtain rfl | h := List.mem_cons.mp h
      · exact (List.prefix_append_of_prefix (List.prefix_append _ _)).isInfix
      · exact (ih h).trans (List.suffix_append _ _).isInfix

theorem not_mem_of_mem_splitOn (h : piece ∈ l.splitOn a) : a ∉ piece := by
  induction l generalizing piece with
  | nil =>
    obtain rfl : piece = [] := by simpa using h
    simp
  | cons x l ih =>
    by_cases hx : x = a
    · rw [hx, splitOn_cons_self] at h
      obtain rfl | h := List.mem_cons.mp h
      · simp
      · exact ih h
    · rw [splitOn_cons_of_ne hx] at h
      obtain ⟨first, rest, hsplit⟩ := List.exists_cons_of_ne_nil (List.splitOn_ne_nil a l)
      rw [hsplit] at h ih
      simp only [List.modifyHead_cons, List.mem_cons] at h ih
      grind

omit [DecidableEq α] in
theorem length_intercalate (hne : ls ≠ []) :
    ([a].intercalate ls).length + 1 = (ls.map (·.length + 1)).sum := by
  induction ls with
  | nil => cases hne rfl
  | cons head tail ih =>
    cases tail with
    | nil => simp
    | cons next rest =>
      have := ih (List.cons_ne_nil _ _)
      rw [List.intercalate_cons_cons]
      simp only [List.length_append, List.length_singleton, List.map_cons, List.sum_cons] at this ⊢
      omega

omit [DecidableEq α] in
/-- Reordering the pieces does not change the length. -/
theorem length_intercalate_perm {ls' : List (List α)} (h : ls'.Perm ls) :
    ([a].intercalate ls').length = ([a].intercalate ls).length := by
  obtain rfl | hne := eq_or_ne ls []
  · rw [List.perm_nil.mp h]
  · have hne' : ls' ≠ [] := fun hnil => hne (by simpa [hnil] using h)
    have hsum := (h.map (·.length + 1)).sum_nat
    have := length_intercalate (a := a) hne
    have := length_intercalate (a := a) hne'
    omega

omit [DecidableEq α] in
theorem mem_intercalate {x : α} (h : x ∈ [a].intercalate ls) : x = a ∨ ∃ piece ∈ ls, x ∈ piece := by
  induction ls with
  | nil => simp at h
  | cons head tail ih =>
    cases tail with
    | nil => exact .inr ⟨head, by simp, by simpa using h⟩
    | cons next rest =>
      rw [List.intercalate_cons_cons] at h
      grind

end Split

section Related

variable {α β : Type*} {R : α → β → Prop} {l l₁ l₂ : List α} {u : List β} {a : α} {b : β}

theorem exists_forall₂_iff : (∃ u, List.Forall₂ R l u) ↔ ∀ x ∈ l, ∃ y, R x y := by
  induction l with
  | nil => simp
  | cons x l ih => simp [List.forall₂_cons_left_iff, ← ih]

theorem exists_forall₂_append_cons (h : List.Forall₂ R (l₁ ++ a :: l₂) u) :
    ∃ u₁ b u₂, u = u₁ ++ b :: u₂ ∧ List.Forall₂ R l₁ u₁ ∧ R a b ∧ List.Forall₂ R l₂ u₂ := by
  induction l₁ generalizing u with
  | nil =>
    obtain ⟨b, u₂, hb, h₂, rfl⟩ := List.forall₂_cons_left_iff.mp h
    exact ⟨[], b, u₂, rfl, .nil, hb, h₂⟩
  | cons x l₁ ih =>
    obtain ⟨y, u', hy, h', rfl⟩ := List.forall₂_cons_left_iff.mp h
    obtain ⟨u₁, b, u₂, rfl, h₁, hb, h₂⟩ := ih h'
    exact ⟨y :: u₁, b, u₂, rfl, .cons hy h₁, hb, h₂⟩

theorem exists_of_mem_forall₂ (h : List.Forall₂ R l u) (hb : b ∈ u) : ∃ a ∈ l, R a b := by
  induction h with
  | nil => cases hb
  | cons hR _ ih =>
    obtain rfl | hb := List.mem_cons.mp hb
    · exact ⟨_, List.mem_cons_self, hR⟩
    · obtain ⟨a, ha, hR⟩ := ih hb
      exact ⟨a, List.mem_cons_of_mem _ ha, hR⟩

end Related

end Separated
