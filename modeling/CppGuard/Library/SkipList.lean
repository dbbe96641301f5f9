import CppGuard.Library.LinkedChain
import Mathlib

/-!
# Skip lists

The nodes of a skip list are sorted. A node has a height, and on every level below its height it is
linked to the next node that is high enough; the head belongs to all levels. A node is inserted or
removed by changing the links of its predecessors, level by level.
-/
namespace LinkedChain

variable {ι : Type*} {next next' : ι → Option ι} {p e : ι} {a b : List ι}

/-- The cell in front of what follows `a` in a list that begins behind `p`. -/
def lastOr (p : ι) : List ι → ι
  | [] => p
  | c :: l => lastOr c l

theorem lastOr_mem (p : ι) (l : List ι) : lastOr p l ∈ p :: l := by
  induction l generalizing p with
  | nil => exact List.mem_cons_self
  | cons c l ih => exact List.mem_cons_of_mem _ (ih c)

theorem lastOr_append (p : ι) (a b : List ι) : lastOr p (a ++ b) = lastOr (lastOr p a) b := by
  induction a generalizing p with
  | nil => rfl
  | cons c a ih => exact ih c

/-- A chain begins with its first cell. -/
theorem Chain.eq_head? {o : Option ι} {l : List ι} (h : Chain next o l) : o = l.head? := by
  cases l with
  | nil => exact h
  | cons c l => exact h.1

/-- The rest of a chain begins at the last cell before it. -/
theorem Chain.of_append (h : Chain next (next p) (a ++ b)) : Chain next (next (lastOr p a)) b := by
  induction a generalizing p with
  | nil => exact h
  | cons c a ih => exact ih h.2

/-- Put the cell `e` behind `a`. -/
theorem Chain.insert (h : Chain next (next p) (a ++ b)) (hnodup : (p :: (a ++ b)).Nodup)
    (he : e ∉ p :: (a ++ b)) (hlink : next' e = next (lastOr p a))
    (hredirect : next' (lastOr p a) = some e)
    (hsame : ∀ x, x ≠ e → x ≠ lastOr p a → next' x = next x) :
    Chain next' (next' p) (a ++ e :: b) := by
  induction a generalizing p with
  | nil =>
    refine ⟨hredirect, ?_⟩
    rw [hlink]
    refine h.congr fun x hx => hsame x ?_ ?_
    · rintro rfl
      exact he (List.mem_cons_of_mem _ hx)
    · rintro rfl
      exact (List.nodup_cons.mp hnodup).1 hx
  | cons c a ih =>
    obtain ⟨hp, hnodup'⟩ := List.nodup_cons.mp hnodup
    have hpe : p ≠ e := fun heq => he (heq ▸ List.mem_cons_self)
    have hplast : p ≠ lastOr c a := by
      intro heq
      apply hp
      rw [heq, List.cons_append]
      exact List.mem_append_left b (lastOr_mem c a)
    refine ⟨(hsame p hpe hplast).trans h.1, ?_⟩
    exact ih h.2 hnodup' (fun hmem => he (List.mem_cons_of_mem _ hmem)) hlink hredirect hsame

/-- Take out the cell `e` behind `a`. -/
theorem Chain.remove (h : Chain next (next p) (a ++ e :: b)) (hnodup : (p :: (a ++ e :: b)).Nodup)
    (hredirect : next' (lastOr p a) = next e)
    (hsame : ∀ x, x ≠ lastOr p a → next' x = next x) : Chain next' (next' p) (a ++ b) := by
  induction a generalizing p with
  | nil =>
    change Chain next' (next' p) b
    rw [show next' p = next e from hredirect]
    refine h.2.congr fun x hx => hsame x ?_
    rintro rfl
    exact (List.nodup_cons.mp hnodup).1 (List.mem_cons_of_mem _ hx)
  | cons c a ih =>
    obtain ⟨hp, hnodup'⟩ := List.nodup_cons.mp hnodup
    have hplast : p ≠ lastOr c a := by
      intro heq
      apply hp
      rw [heq, List.cons_append]
      exact List.mem_append_left (e :: b) (lastOr_mem c a)
    exact ⟨(hsame p hplast).trans h.1, ih h.2 hnodup' hredirect hsame⟩

end LinkedChain

open LinkedChain

/-- The links `next` and the heights make the sorted list `nodes` a skip list behind `head`. -/
structure SkipList {α : Type*} [LinearOrder α] (next : α → Nat → Option α) (height : α → Nat)
    (head : α) (nodes : List α) : Prop where
  sorted : nodes.Pairwise (· < ·)
  head_notMem : head ∉ nodes
  chain : ∀ i, Chain (next · i) (next head i) (nodes.filter (i < height ·))

namespace SkipList

variable {α : Type*} [LinearOrder α] {next next' : α → Nat → Option α} {height height' : α → Nat}
  {head e : α} {nodes pre post : List α}

/-- The node in front of a node on a level: `pre` are the smaller nodes. -/
def pred (height : α → Nat) (head : α) (pre : List α) (i : Nat) : α :=
  lastOr head (pre.filter (i < height ·))

omit [LinearOrder α] in
theorem pred_mem (i : Nat) : pred height head pre i = head ∨
    pred height head pre i ∈ pre ∧ i < height (pred height head pre i) := by
  obtain h | h := List.mem_cons.mp (lastOr_mem head (pre.filter (i < height ·)))
  · exact Or.inl h
  · exact Or.inr ⟨List.mem_of_mem_filter h, of_decide_eq_true (List.mem_filter.mp h).2⟩

omit [LinearOrder α] in
/-- Above all the nodes only the head is left. -/
theorem pred_of_le {i : Nat} (h : ∀ x ∈ pre, height x ≤ i) : pred height head pre i = head := by
  unfold pred
  rw [List.filter_eq_nil_iff.mpr fun x hx => by simpa using h x hx]
  rfl

/-- Every sorted list is split by an element that is not in it. -/
theorem exists_split (hsorted : nodes.Pairwise (· < ·)) (he : e ∉ nodes) :
    ∃ pre post, nodes = pre ++ post ∧ (∀ x ∈ pre, x < e) ∧ ∀ x ∈ post, e < x := by
  induction nodes with
  | nil => exact ⟨[], [], rfl, by simp, by simp⟩
  | cons n nodes ih =>
    obtain ⟨hn, hsorted⟩ := List.pairwise_cons.mp hsorted
    obtain hlt | hgt := lt_or_gt_of_ne fun heq : n = e => he (heq ▸ List.mem_cons_self)
    · obtain ⟨pre, post, rfl, hpre, hpost⟩ := ih hsorted fun h => he (List.mem_cons_of_mem _ h)
      refine ⟨n :: pre, post, rfl, ?_, hpost⟩
      exact List.forall_mem_cons.mpr ⟨hlt, hpre⟩
    · refine ⟨[], n :: nodes, rfl, by simp, ?_⟩
      exact List.forall_mem_cons.mpr ⟨hgt, fun x hx => lt_trans hgt (hn x hx)⟩

theorem nodup_level (h : SkipList next height head nodes) (i : Nat) :
    (head :: nodes.filter (i < height ·)).Nodup := by
  refine List.nodup_cons.mpr ⟨fun hmem => h.head_notMem (List.mem_of_mem_filter hmem), ?_⟩
  have hnodup : nodes.Nodup := h.sorted.imp fun hlt => ne_of_lt hlt
  exact hnodup.filter _

/-- The links of the nodes and of the head decide. -/
theorem congr (h : SkipList next height head nodes)
    (hnext : ∀ x, x = head ∨ x ∈ nodes → ∀ i, next' x i = next x i)
    (hheight : ∀ x ∈ nodes, height' x = height x) : SkipList next' height' head nodes where
  sorted := h.sorted
  head_notMem := h.head_notMem
  chain i := by
    rw [List.filter_congr fun x hx => by rw [hheight x hx], hnext head (Or.inl rfl)]
    refine (h.chain i).congr fun x hx => hnext x (Or.inr (List.mem_of_mem_filter hx)) i

/-- Insert `e` on the levels below its height. -/
theorem insert (h : SkipList next height head (pre ++ post)) (hne : e ≠ head)
    (hpre : ∀ x ∈ pre, x < e) (hpost : ∀ x ∈ post, e < x)
    (hheight : ∀ x ∈ pre ++ post, height' x = height x)
    (hlink : ∀ i < height' e, next' e i = next (pred height head pre i) i)
    (hredirect : ∀ i < height' e, next' (pred height head pre i) i = some e)
    (hsame : ∀ i x, x ≠ e → (i < height' e → x ≠ pred height head pre i) → next' x i = next x i) :
    SkipList next' height' head (pre ++ e :: post) where
  sorted := by
    have hsorted := h.sorted
    simp only [List.pairwise_append, List.pairwise_cons, List.mem_cons] at hsorted ⊢
    refine ⟨hsorted.1, ⟨hpost, hsorted.2.1⟩, ?_⟩
    rintro x hx y (rfl | hy)
    · exact hpre x hx
    · exact hsorted.2.2 x hx y hy
  head_notMem hmem := by
    have hnot := h.head_notMem
    simp only [List.mem_append, List.mem_cons] at hmem hnot
    obtain hmem | rfl | hmem := hmem
    · exact hnot (Or.inl hmem)
    · exact hne rfl
    · exact hnot (Or.inr hmem)
  chain i := by
    have hnotMem : e ∉ head :: (pre ++ post) := by
      simp only [List.mem_cons, List.mem_append]
      rintro (heq | hmem | hmem)
      · exact hne heq
      · exact lt_irrefl e (hpre e hmem)
      · exact lt_irrefl e (hpost e hmem)
    have hchain := h.chain i
    have hnodup := h.nodup_level i
    have hfilter : ∀ l : List α, (∀ x ∈ l, x ∈ pre ++ post) →
        l.filter (i < height' ·) = l.filter (i < height ·) := fun l hl =>
      List.filter_congr fun x hx => by rw [hheight x (hl x hx)]
    rw [List.filter_append] at hchain hnodup
    rw [List.filter_append, List.filter_cons, hfilter pre fun x hx => List.mem_append_left _ hx,
      hfilter post fun x hx => List.mem_append_right _ hx]
    by_cases hi : i < height' e
    · simp only [hi, decide_true, if_true]
      refine hchain.insert hnodup ?_ (hlink i hi) (hredirect i hi) ?_
      · rw [← List.filter_append]
        simp only [List.mem_cons, List.mem_filter, not_or, not_and]
        simp only [List.mem_cons, not_or] at hnotMem
        exact ⟨hnotMem.1, fun hmem => absurd hmem hnotMem.2⟩
      · exact fun x hx hxpred => hsame i x hx fun _ => hxpred
    · simp only [hi, decide_false, Bool.false_eq_true, if_false]
      have hkept : ∀ x ∈ head :: (pre ++ post), next' x i = next x i := by
        intro x hx
        refine hsame i x ?_ fun hlt => absurd hlt hi
        rintro rfl
        exact hnotMem hx
      rw [hkept head List.mem_cons_self]
      refine hchain.congr fun x hx => hkept x (List.mem_cons_of_mem _ ?_)
      rw [← List.filter_append] at hx
      exact List.mem_of_mem_filter hx

/-- Remove `e` from the levels below its height. -/
theorem remove (h : SkipList next height head (pre ++ e :: post))
    (hheight : ∀ x ∈ pre ++ post, height' x = height x)
    (hredirect : ∀ i < height e, next' (pred height head pre i) i = next e i)
    (hsame : ∀ i x, (i < height e → x ≠ pred height head pre i) → next' x i = next x i) :
    SkipList next' height' head (pre ++ post) where
  sorted := by
    have hsorted := h.sorted
    simp only [List.pairwise_append, List.pairwise_cons, List.mem_cons] at hsorted ⊢
    exact ⟨hsorted.1, hsorted.2.1.2, fun x hx y hy => hsorted.2.2 x hx y (Or.inr hy)⟩
  head_notMem hmem := by
    have hnot := h.head_notMem
    simp only [List.mem_append, List.mem_cons] at hmem hnot
    exact hnot (hmem.imp_right Or.inr)
  chain i := by
    have hchain := h.chain i
    have hnodup := h.nodup_level i
    rw [List.filter_congr fun x hx => by rw [hheight x hx]]
    rw [List.filter_append, List.filter_cons] at hchain hnodup
    rw [List.filter_append]
    by_cases hi : i < height e
    · simp only [hi, decide_true, if_true] at hchain hnodup
      exact hchain.remove hnodup (hredirect i hi) fun x hx => hsame i x fun _ => hx
    · simp only [hi, decide_false, Bool.false_eq_true, if_false] at hchain
      have hkept : ∀ x, next' x i = next x i := fun x => hsame i x fun hlt => absurd hlt hi
      rw [hkept head]
      exact hchain.congr fun x _ => hkept x

end SkipList
