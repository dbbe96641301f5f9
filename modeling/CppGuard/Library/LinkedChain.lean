import Mathlib.Data.List.Basic
import Mathlib.Data.List.Nodup

/-!
# Intrusive linked lists

`Chain next o l` says that following the links `next` from `o` meets the cells `l` and
then ends. Links are cells of a larger structure, so the lemmas are about what a chain
becomes when one link is written: a cell is put in front (`push`), a cell is taken out
(`unlink`), or a link elsewhere changes (`congr`).
-/
namespace LinkedChain

variable {ι : Type*}

def Chain (next : ι → Option ι) : Option ι → List ι → Prop
  | o, [] => o = none
  | o, i :: l => o = some i ∧ Chain next (next i) l

variable {next next' : ι → Option ι}

theorem Chain.unique {o : Option ι} {l l' : List ι} (h : Chain next o l) (h' : Chain next o l') :
    l = l' := by
  induction l generalizing o l' with
  | nil =>
    cases l' with
    | nil => rfl
    | cons i l' => cases h.symm.trans h'.1
  | cons i l ih =>
    cases l' with
    | nil => cases h.1.symm.trans h'
    | cons j l' =>
      obtain rfl : i = j := Option.some.inj (h.1.symm.trans h'.1)
      rw [ih h.2 h'.2]

/-- Every suffix of a chain is a chain. -/
theorem Chain.suffix {o : Option ι} {a b : List ι} {i : ι} (h : Chain next o (a ++ i :: b)) :
    Chain next (some i) (i :: b) := by
  induction a generalizing o with
  | nil => exact ⟨rfl, h.2⟩
  | cons _ _ ih => exact ih h.2

/-- A chain that ends visits no cell twice: a repeated cell has two different tails. -/
theorem Chain.nodup {o : Option ι} {l : List ι} (h : Chain next o l) : l.Nodup := by
  induction l generalizing o with
  | nil => exact List.nodup_nil
  | cons i l ih =>
    refine List.nodup_cons.mpr ⟨fun hi => ?_, ih h.2⟩
    obtain ⟨a, b, rfl⟩ := List.append_of_mem hi
    have hlong : Chain next (some i) (i :: (a ++ i :: b)) := ⟨rfl, h.2⟩
    have hlen := congrArg List.length (hlong.unique h.2.suffix)
    simp only [List.length_cons, List.length_append] at hlen
    omega

theorem Chain.congr {o : Option ι} {l : List ι} (h : Chain next o l)
    (same : ∀ i ∈ l, next' i = next i) : Chain next' o l := by
  induction l generalizing o with
  | nil => exact h
  | cons i l ih =>
    refine ⟨h.1, ?_⟩
    rw [same i (by simp)]
    exact ih h.2 fun j hj => same j (by simp [hj])

theorem Chain.push {o : Option ι} {l : List ι} {i : ι} (h : Chain next o l)
    (head : next' i = o) (same : ∀ j ∈ l, next' j = next j) :
    Chain next' (some i) (i :: l) := ⟨rfl, head ▸ h.congr same⟩

theorem Chain.head_unlink {o : Option ι} {l : List ι} {i : ι} (h : Chain next o (i :: l))
    (same : ∀ j ∈ l, next' j = next j) : Chain next' (next i) l := h.2.congr same

/-- Take out the cell `i` behind `p` by redirecting the link of `p`. -/
theorem Chain.unlink {o : Option ι} {a b : List ι} {p i : ι}
    (h : Chain next o (a ++ p :: i :: b)) (redirect : next' p = next i)
    (same : ∀ j ∈ a ++ b, next' j = next j) : Chain next' o (a ++ p :: b) := by
  induction a generalizing o with
  | nil =>
    refine ⟨h.1, ?_⟩
    rw [redirect]
    exact h.2.2.congr fun j hj => same j (by simpa using hj)
  | cons c a ih =>
    refine ⟨h.1, ?_⟩
    rw [same c (by simp)]
    exact ih h.2 fun j hj =>
      same j (by simp only [List.cons_append, List.mem_cons]; exact Or.inr hj)

end LinkedChain
