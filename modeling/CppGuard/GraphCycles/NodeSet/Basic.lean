import CppGuard.GraphCycles.Vec
import CppGuard.Library.LinearProbing

/-!
# `NodeSet`, the hash set of node indices: the code

`NodeSet` is the set as the source stores it: a table of cells and the count of the
cells in use. Its operations return an `Option`; `none` is a probe loop or a recursion
of `Grow` that does not end. On the tables the program builds this never happens, which
is the content of `NodeSet.Valid`: the size is a power of two, every element lies on its
probe walk, and a quarter of the table is vacant. `ValidNodeSet` carries that proof, so
the graph above works with a total, finite set.

Elements are the non-negative `int32_t` node indices, and the sentinels `kEmpty` and
`kDel` are cells of their own.
-/
namespace CppGuard
open LinearProbing

@[match_pattern] abbrev kEmpty : Cell Nat := .vacant
@[match_pattern] abbrev kDel : Cell Nat := .deleted

structure NodeSet where
  table : List (Cell Nat)
  /-- Count of non-empty slots (includes deleted slots). -/
  occupied : Nat
  deriving DecidableEq, Repr

namespace NodeSet

def hash (a : Nat) : Nat := a * 41 % 2 ^ 32

/-- The loop of `FindIndex`, entered at index `i`. `deletedIndex` is the first deleted
cell seen so far. -/
def probe (table : List (Cell Nat)) (v : Nat) : Nat → Nat → Option Nat → Option Nat
  | 0, _, _ => none
  | fuel + 1, i, deletedIndex =>
    let mask := table.length - 1
    match table[i]? with
    | some (.full e) =>
      if v = e then some i else probe table v fuel ((i + 1) &&& mask) deletedIndex
    | some kEmpty => some (deletedIndex.getD i)
    | some kDel =>
      -- keep searching since v might be present later
      probe table v fuel ((i + 1) &&& mask) (deletedIndex <|> some i)
    | none => none

/-- Index for storing `v`; it may be an empty index or a deleted one. -/
def findIndex (s : NodeSet) (v : Nat) : Option Nat :=
  probe s.table v s.table.length (hash v &&& (s.table.length - 1)) none

def init : NodeSet := ⟨List.replicate kInline kEmpty, 0⟩

def contains (s : NodeSet) (v : Nat) : Option Bool := do
  let i ← s.findIndex v
  return decide (s.table[i]? = some (.full v))

/-- Write `v` into cell `i`. Only inserting over an empty cell increases the number of
occupied slots. -/
def store (s : NodeSet) (i v : Nat) : NodeSet where
  table := s.table.set i (.full v)
  occupied := if s.table[i]? = some kEmpty then s.occupied + 1 else s.occupied

/-- `insert`, with the `Grow` it calls when the table is 75% full. -/
def insertWith (grow : NodeSet → Option NodeSet) (s : NodeSet) (v : Nat) :
    Option (Bool × NodeSet) := do
  let i ← s.findIndex v
  if s.table[i]? = some (.full v) then
    return (false, s)
  else if s.table.length - s.table.length / 4 ≤ (s.store i v).occupied then
    let s' ← grow (s.store i v)
    return (true, s')
  else
    return (true, s.store i v)

def cellElem : Cell Nat → Option Nat
  | .full v => some v
  | _ => none

/-- `Grow`: move everything into a table of twice the size, through `insert` itself.
The argument bounds the nesting of `Grow` inside that `insert`. -/
def growAt : Nat → NodeSet → Option NodeSet
  | 0, _ => none
  | depth + 1, s =>
    (s.table.filterMap cellElem).foldlM
      (fun t v => do
        let r ← insertWith (growAt depth) t v
        return r.2)
      ⟨List.replicate (s.table.length * 2) kEmpty, 0⟩

/-- Re-insertion finds the new table less than 3/8 full and does not grow it again, so
one level of `Grow` is enough (`insert_of_valid`). -/
def insert (s : NodeSet) (v : Nat) : Option (Bool × NodeSet) := insertWith (growAt 1) s v

def erase (s : NodeSet) (v : Nat) : Option NodeSet := do
  let i ← s.findIndex v
  if s.table[i]? = some (.full v) then
    return { s with table := s.table.set i kDel }
  else
    return s

/-- The loop of `Next`, over the cells from `cursor` on. -/
def nextIn : List (Cell Nat) → Nat → Option (Nat × Nat)
  | [], _ => none
  | .full v :: _, cursor => some (v, cursor + 1)
  | _ :: cells, cursor => nextIn cells (cursor + 1)

/-- The next element at or after `cursor`, with the cursor behind it. -/
def next (s : NodeSet) (cursor : Nat) : Option (Nat × Nat) :=
  nextIn (s.table.drop cursor) cursor

/-- The elements in the order a `HASH_FOR_EACH` loop meets them. -/
def forEach (s : NodeSet) : Nat → Nat → List Nat
  | 0, _ => []
  | fuel + 1, cursor =>
    match s.next cursor with
    | some (v, cursor') => v :: s.forEach fuel cursor'
    | none => []

def elems (s : NodeSet) : List Nat := s.forEach (s.table.length + 1) 0

theorem nextIn_eq_none {cells : List (Cell Nat)} {c : Nat}
    (h : cells.filterMap cellElem = []) : nextIn cells c = none := by
  induction cells generalizing c with
  | nil => rfl
  | cons x xs ih =>
    cases x with
    | vacant => exact ih (by simpa [cellElem] using h)
    | deleted => exact ih (by simpa [cellElem] using h)
    | full v => simp [cellElem] at h

theorem nextIn_eq_some {cells : List (Cell Nat)} {c v : Nat} {vs : List Nat}
    (h : cells.filterMap cellElem = v :: vs) :
    ∃ k, nextIn cells c = some (v, c + k + 1) ∧
      (cells.drop (k + 1)).filterMap cellElem = vs := by
  induction cells generalizing c with
  | nil => simp at h
  | cons x xs ih =>
    cases x with
    | vacant | deleted =>
      obtain ⟨k, hk, hd⟩ := @ih (c + 1) (by simpa [List.filterMap_cons, cellElem] using h)
      refine ⟨k + 1, ?_, by simpa using hd⟩
      simp only [nextIn, hk]
      congr 2
      omega
    | full w =>
      simp only [List.filterMap_cons, cellElem, List.cons.injEq] at h
      exact ⟨0, by simp [nextIn, h.1], by simpa using h.2⟩

/-- Iteration meets the elements of the table, each cell once. -/
theorem forEach_eq (s : NodeSet) (fuel cursor : Nat)
    (h : ((s.table.drop cursor).filterMap cellElem).length ≤ fuel) :
    s.forEach fuel cursor = (s.table.drop cursor).filterMap cellElem := by
  induction fuel generalizing cursor with
  | zero => simp [forEach, List.eq_nil_of_length_eq_zero (Nat.le_zero.mp h)]
  | succ fuel ih =>
    cases hc : (s.table.drop cursor).filterMap cellElem with
    | nil => simp [forEach, next, nextIn_eq_none hc]
    | cons v vs =>
      obtain ⟨k, hk, hd⟩ := @nextIn_eq_some _ cursor _ _ hc
      have hrest : (s.table.drop (cursor + k + 1)).filterMap cellElem = vs := by
        rwa [List.drop_drop, ← Nat.add_assoc] at hd
      rw [hc, List.length_cons] at h
      simp only [forEach, next, hk]
      rw [ih (cursor + k + 1) (by rw [hrest]; omega), hrest]

theorem elems_eq (s : NodeSet) : s.elems = s.table.filterMap cellElem := by
  have hlen := List.length_filterMap_le cellElem s.table
  unfold elems
  simpa using forEach_eq s (s.table.length + 1) 0 (by simpa using Nat.le_succ_of_le hlen)

theorem mem_elems {s : NodeSet} {v : Nat} : v ∈ s.elems ↔ Cell.full v ∈ s.table := by
  simp only [elems_eq, List.mem_filterMap]
  constructor
  · rintro ⟨c, hc, hv⟩
    cases c <;> simp_all [cellElem]
  · exact fun h => ⟨_, h, rfl⟩

end NodeSet

end CppGuard
