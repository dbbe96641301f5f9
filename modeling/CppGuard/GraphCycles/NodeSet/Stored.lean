import CppGuard.GraphCycles.NodeSet.Valid
import CppGuard.Library.Transition
import Mathlib.Data.Finset.Basic

/-!
# `NodeSet` over its `Vec`

The table of a `NodeSet` is a `Vec`; what its loops read are the elements. The operations that write
are those of `NodeSet` on the elements, as long as the table has fewer than `2 ^ 31` of them. So a
run of them is a run of the operations of a finite set.
-/
namespace CppGuard
open LinearProbing Transition

namespace NodeSet

structure Stored where
  table : Vec (Cell Nat)
  /-- Count of non-empty slots (includes deleted slots). -/
  occupied : Nat
  deriving DecidableEq, Repr

namespace Stored

/-- The set as the loops read it. -/
def view (s : Stored) : NodeSet := ⟨s.table.elems, s.occupied⟩

variable (fresh : Nat → Cell Nat)

/-- `Init`. -/
def init (table : Vec (Cell Nat)) : Option Stored := do
  let table ← table.clear.resize fresh kInline
  return ⟨table.fill kEmpty, 0⟩

/-- The constructor. -/
def new : Option Stored := init fresh (.new fresh)

def clear (s : Stored) : Option Stored := init fresh s.table

def store (s : Stored) (i v : Nat) : Stored where
  table := s.table.set i (.full v)
  occupied := if s.view.table[i]? = some kEmpty then s.occupied + 1 else s.occupied

def insertWith (grow : Stored → Option Stored) (s : Stored) (v : Nat) : Option (Bool × Stored) := do
  let i ← s.view.findIndex v
  if s.view.table[i]? = some (.full v) then
    return (false, s)
  else if s.table.size - s.table.size / 4 ≤ (s.store i v).occupied then
    let s' ← grow (s.store i v)
    return (true, s')
  else
    return (true, s.store i v)

/-- `Grow`: the elements of `copy` are inserted into a table of twice the size. -/
def growAt : Nat → Stored → Option Stored
  | 0, _ => none
  | depth + 1, s => do
    let (copy, table) ← (Vec.new fresh).moveFrom fresh s.table
    let table ← table.resize fresh (copy.size * 2 % 2 ^ 32)
    (copy.elems.filterMap cellElem).foldlM
      (fun t v => do
        let r ← insertWith (growAt depth) t v
        return r.2)
      ⟨table.fill kEmpty, 0⟩

def insert (s : Stored) (v : Nat) : Option (Bool × Stored) := insertWith (growAt fresh 1) s v

def erase (s : Stored) (v : Nat) : Option Stored := do
  let i ← s.view.findIndex v
  if s.view.table[i]? = some (.full v) then
    return { s with table := s.table.set i kDel }
  else
    return s

/-! ## The operations on the elements -/

variable {fresh : Nat → Cell Nat} {s : Stored} {v i : Nat}

@[simp] theorem view_store : (s.store i v).view = s.view.store i v := by
  simp [view, store, NodeSet.store]

theorem view_init (fresh : Nat → Cell Nat) {table : Vec (Cell Nat)} (h : table.WellFormed) :
    ∃ s, init fresh table = some s ∧ s.table.WellFormed ∧ s.view = NodeSet.init := by
  obtain ⟨table', hresize, hwf, hsize⟩ := h.clear.resize fresh (n := kInline) (by decide)
  obtain ⟨hfill, helems⟩ := hwf.fill kEmpty
  refine ⟨⟨table'.fill kEmpty, 0⟩, ?_, hfill, ?_⟩
  · rw [init, hresize]
    rfl
  · rw [view, helems, hsize]
    rfl

/-- An insertion that does not call `Grow` is the same for every `Grow`. -/
theorem insertWith_noGrow {set set' : NodeSet} {b : Bool}
    (h : NodeSet.insertWith (fun _ => none) set v = some (b, set'))
    (grow : NodeSet → Option NodeSet) : NodeSet.insertWith grow set v = some (b, set') := by
  unfold NodeSet.insertWith at h ⊢
  obtain ⟨i, hi, h⟩ := Option.bind_eq_some_iff.mp h
  refine Option.bind_eq_some_iff.mpr ⟨i, hi, ?_⟩
  split_ifs at h ⊢
  · exact h
  · cases h
  · exact h

/-- It is the insertion into the elements. -/
theorem insertWith_view {set : NodeSet} {b : Bool} (hs : s.table.WellFormed)
    (h : NodeSet.insertWith (fun _ => none) s.view v = some (b, set))
    (grow : Stored → Option Stored) :
    ∃ s', insertWith grow s v = some (b, s') ∧ s'.table.WellFormed ∧ s'.view = set := by
  have hlength : s.view.table.length = s.table.size := hs.length_elems
  unfold NodeSet.insertWith at h
  obtain ⟨i, hi, h⟩ := Option.bind_eq_some_iff.mp h
  rw [hlength, ← view_store] at h
  unfold insertWith
  simp only [hi, Option.bind_eq_bind, Option.bind_some]
  split_ifs at h with hfound hgrow
  · obtain ⟨rfl, rfl⟩ := Prod.mk.inj (Option.some.inj h)
    exact ⟨s, if_pos hfound, hs, rfl⟩
  · cases h
  · obtain ⟨rfl, rfl⟩ := Prod.mk.inj (Option.some.inj h)
    exact ⟨s.store i v, (if_neg hfound).trans (if_neg hgrow), hs.set i _, rfl⟩

/-- The loop of `Grow`, as long as it does not call `Grow` again. -/
theorem reinsert_view {vs : List Nat} {set : NodeSet} (hs : s.table.WellFormed)
    (h : vs.foldlM (fun t v => do
      let r ← NodeSet.insertWith (fun _ => none) t v
      return r.2) s.view = some set) (grow : Stored → Option Stored)
    (grow' : NodeSet → Option NodeSet) :
    (∃ s', vs.foldlM (fun t v => do
        let r ← insertWith grow t v
        return r.2) s = some s' ∧ s'.table.WellFormed ∧ s'.view = set) ∧
      vs.foldlM (fun t v => do
        let r ← NodeSet.insertWith grow' t v
        return r.2) s.view = some set := by
  induction vs generalizing s with
  | nil => exact ⟨⟨s, rfl, hs, Option.some.inj h⟩, h⟩
  | cons v vs ih =>
    simp only [List.foldlM_cons, Option.bind_eq_bind, Option.bind_eq_some_iff] at h ⊢
    obtain ⟨set₁, ⟨⟨b, set₁'⟩, hinsert, hsnd⟩, hrest⟩ := h
    obtain rfl := Option.some.inj hsnd
    obtain ⟨s₁, hs₁, hwf, rfl⟩ := insertWith_view hs hinsert grow
    obtain ⟨⟨s', hfold, hrest'⟩, hfold'⟩ := ih hwf hrest
    refine ⟨⟨s', ⟨s₁, ⟨(b, s₁), hs₁, rfl⟩, hfold⟩, hrest'⟩, ?_⟩
    exact ⟨s₁.view, ⟨(b, s₁.view), insertWith_noGrow hinsert grow', rfl⟩, hfold'⟩

/-- `Grow` of a table that is three quarters full. -/
theorem growAt_view (fresh : Nat → Cell Nat) (hs : s.table.WellFormed) (hcore : s.view.Core)
    (hocc : s.view.occupied ≤ s.view.table.length - s.view.table.length / 4)
    (hsize : s.table.size < 2 ^ 31) (depth : Nat) :
    ∃ s', growAt fresh (depth + 1) s = some s' ∧ s'.table.WellFormed ∧
      NodeSet.growAt (depth + 1) s.view = some s'.view := by
  have hlength : s.view.table.length = s.table.size := hs.length_elems
  have hdouble : s.table.size * 2 ≤ 2 ^ 31 := by
    obtain ⟨k, hk⟩ := hcore.size
    have hpow : s.table.size = 2 ^ (k + 3) := by
      rw [← hlength, hk, kInline, Nat.pow_add, Nat.mul_comm]
    rw [hpow] at hsize ⊢
    have hlt := (Nat.pow_lt_pow_iff_right (by decide : 1 < 2)).mp hsize
    rw [← Nat.pow_succ]
    exact Nat.pow_le_pow_right (by decide : 0 < 2) hlt
  obtain ⟨copy, table, hmove, hcopy, htable, helems, hcopySize⟩ :=
    hs.moveFrom (Vec.new_wellFormed fresh) fresh
  obtain ⟨table', hresize, htable', hsize'⟩ := htable.resize fresh hdouble
  obtain ⟨hfill, hfilled⟩ := htable'.fill kEmpty
  have hdoubled : view ⟨table'.fill kEmpty, 0⟩ = s.view.doubled := by
    rw [view, hfilled, hsize', doubled, hlength]
  obtain ⟨set, -, hfold, -⟩ := hcore.reinsert_all hocc fun _ => none
  rw [← hdoubled] at hfold
  obtain ⟨⟨s', hs', hwf, rfl⟩, hset⟩ :=
    reinsert_view hfill hfold (growAt fresh depth) (NodeSet.growAt depth)
  refine ⟨s', ?_, hwf, ?_⟩
  · simp only [growAt, hmove, Option.bind_eq_bind, Option.bind_some, helems, hcopySize,
      Nat.mod_eq_of_lt (Nat.lt_of_le_of_lt hdouble (by decide : 2 ^ 31 < 2 ^ 32)), hresize]
    exact hs'
  · rw [hdoubled] at hset
    exact hset

/-- Every call returns on a stored set whose elements are a well-formed table. -/
structure Sound (s : Stored) : Prop where
  wellFormed : s.table.WellFormed
  valid : s.view.Valid

theorem Sound.length (h : s.Sound) : s.view.table.length = s.table.size :=
  h.wellFormed.length_elems

theorem Sound.insert (h : s.Sound) (fresh : Nat → Cell Nat) (hsize : s.table.size < 2 ^ 31)
    (v : Nat) : ∃ b s', s.insert fresh v = some (b, s') ∧ s'.table.WellFormed ∧
      s.view.insert v = some (b, s'.view) := by
  obtain ⟨i, hi, spot⟩ := findIndex_of_valid h.valid v
  have hlength := h.length
  simp only [Stored.insert, Stored.insertWith, NodeSet.insert, NodeSet.insertWith, hi,
    Option.bind_eq_bind, Option.bind_some, hlength]
  by_cases hfound : s.view.table[i]? = some (.full v)
  · exact ⟨false, s, if_pos hfound, h.wellFormed, if_pos hfound⟩
  · rw [if_neg hfound, if_neg hfound]
    obtain ⟨hcore, hlen, hocc, -⟩ :=
      h.valid.store spot fun hmem => hfound (spot.found_iff.mpr hmem)
    have hstored := h.wellFormed.set i (.full v)
    have hroom := h.valid.room
    rw [← view_store] at hcore hlen hocc ⊢
    by_cases hgrow : s.table.size - s.table.size / 4 ≤ (s.store i v).occupied
    · have hstoredSize : (s.store i v).table.size = s.table.size := Vec.size_set
      obtain ⟨s', hs', hwf, hview⟩ := growAt_view fresh hstored hcore
        (by omega) (hstoredSize ▸ hsize) 0
      refine ⟨true, s', ?_, hwf, ?_⟩
      · rw [if_pos hgrow, hs']
        rfl
      · refine (if_pos hgrow).trans ?_
        rw [hview]
        rfl
    · exact ⟨true, s.store i v, if_neg hgrow, hstored, if_neg hgrow⟩

theorem Sound.erase (h : s.Sound) (v : Nat) : ∃ s', s.erase v = some s' ∧ s'.table.WellFormed ∧
    s.view.erase v = some s'.view := by
  obtain ⟨i, hi, -⟩ := findIndex_of_valid h.valid v
  simp only [Stored.erase, NodeSet.erase, hi, Option.bind_eq_bind, Option.bind_some]
  by_cases hfound : s.view.table[i]? = some (.full v)
  · refine ⟨{ s with table := s.table.set i kDel }, if_pos hfound, h.wellFormed.set i kDel, ?_⟩
    rw [if_pos hfound]
    simp [view]
  · exact ⟨s, if_neg hfound, h.wellFormed, if_neg hfound⟩

/-! ## Runs -/

inductive Op where
  | insert (v : Nat)
  | erase (v : Nat)
  | clear
  deriving DecidableEq, Repr

/-- What the operation does to a set. -/
def Op.apply (set : Finset Nat) : Op → Finset Nat
  | .insert v => Insert.insert v set
  | .erase v => set.erase v
  | .clear => ∅

/-- What was inserted, and not erased or cleared since. -/
def members (ops : List Op) : Finset Nat := ops.foldl Op.apply ∅

def step (fresh : Nat → Cell Nat) (s : Stored) : Op → Option Stored
  | .insert v => (s.insert fresh v).map Prod.snd
  | .erase v => s.erase v
  | .clear => s.clear fresh

/-- The stored set has the elements of `set`. -/
structure Holds (s : Stored) (set : Finset Nat) : Prop extends s.Sound where
  mem_iff : ∀ v, Cell.full v ∈ s.view.table ↔ v ∈ set

theorem holds_init (fresh : Nat → Cell Nat) {table : Vec (Cell Nat)} (h : table.WellFormed) :
    ∃ s, init fresh table = some s ∧ Holds s ∅ := by
  obtain ⟨s, hs, hwf, hview⟩ := view_init fresh h
  refine ⟨s, hs, ⟨hwf, hview ▸ init_valid⟩, fun v => ?_⟩
  simp [hview, NodeSet.init]

/-- Every operation returns, and has its effect on the set. -/
theorem holds_step {set : Finset Nat} (h : Holds s set) (hsize : s.table.size < 2 ^ 31) (op : Op) :
    ∃ s', step fresh s op = some s' ∧ Holds s' (op.apply set) := by
  cases op with
  | insert v =>
    obtain ⟨b, s', hs', hwf, hview⟩ := h.toSound.insert fresh hsize v
    obtain ⟨set', hvalid, hset, hmem, -⟩ := insert_of_valid h.valid v
    obtain ⟨-, rfl⟩ := Prod.mk.inj (Option.some.inj (hview.symm.trans hset))
    refine ⟨s', by rw [Stored.step, hs']; rfl, ⟨hwf, hvalid⟩, fun w => ?_⟩
    rw [hmem, h.mem_iff, Op.apply, Finset.mem_insert]
  | erase v =>
    obtain ⟨s', hs', hwf, hview⟩ := h.toSound.erase v
    obtain ⟨set', hvalid, hset, hmem⟩ := erase_of_valid h.valid v
    obtain rfl := Option.some.inj (hview.symm.trans hset)
    refine ⟨s', hs', ⟨hwf, hvalid⟩, fun w => ?_⟩
    rw [hmem, h.mem_iff, Op.apply, Finset.mem_erase]
  | clear => exact holds_init fresh h.wellFormed

/-- The table is small enough to be doubled. -/
def Small (s : Stored) : Prop := s.table.size < 2 ^ 31

instance : DecidablePred Small := fun _ => inferInstanceAs (Decidable (_ < _))

theorem holds_exec {set : Finset Nat} {ops : List Op} (h : Holds s set)
    (hsmall : Always Small (step fresh) s ops) :
    ∃ s', exec (step fresh) s ops = some s' ∧ Holds s' (ops.foldl Op.apply set) := by
  induction ops generalizing s set with
  | nil => exact ⟨s, rfl, h⟩
  | cons op ops ih =>
    have hsize : s.Small := hsmall [] List.nil_prefix s rfl
    obtain ⟨s₁, hs₁, h₁⟩ := holds_step h hsize op
    obtain ⟨s', hs', h'⟩ := ih h₁ ((always_cons hs₁).mp hsmall).2
    exact ⟨s', exec_cons.mpr ⟨s₁, hs₁, hs'⟩, h'⟩

/-- Every sequence of operations returns, as long as the table is small enough to be doubled, and
leaves a set of the elements that were inserted, and not erased or cleared since. -/
theorem exec_finiteSet (fresh : Nat → Cell Nat) : ∃ s₀, new fresh = some s₀ ∧
    ∀ ops, Always Small (step fresh) s₀ ops → ∃ s, exec (step fresh) s₀ ops = some s ∧
      (∀ v, (s.view.findIndex v).isSome = true) ∧
      (∀ v, s.view.contains v = some (decide (v ∈ members ops))) ∧
      (∀ v, ∃ s', s.insert fresh v = some (decide (v ∉ members ops), s')) ∧
      (s.view.elems.Nodup ∧ ∀ v, v ∈ s.view.elems ↔ v ∈ members ops) ∧
      (∃ k, s.table.size = 2 ^ k) ∧ kEmpty ∈ s.table.elems := by
  obtain ⟨s₀, hnew, hempty⟩ := holds_init fresh (Vec.new_wellFormed fresh)
  refine ⟨s₀, hnew, fun ops hsmall => ?_⟩
  obtain ⟨s, hrun, h⟩ := holds_exec hempty hsmall
  have hsize : s.Small := hsmall.last hrun
  refine ⟨s, hrun, fun v => ?_, fun v => ?_, fun v => ?_, ⟨?_, fun v => ?_⟩, ?_, ?_⟩
  · obtain ⟨i, hi, -⟩ := findIndex_of_valid h.valid v
    simp [hi]
  · rw [contains_of_valid h.valid v, decide_eq_decide.mpr (h.mem_iff v)]
    rfl
  · obtain ⟨b, s', hs', -, hview⟩ := h.toSound.insert fresh hsize v
    obtain ⟨set', -, hset, -⟩ := insert_of_valid h.valid v
    obtain ⟨rfl, -⟩ := Prod.mk.inj (Option.some.inj (hview.symm.trans hset))
    refine ⟨s', hs'.trans ?_⟩
    rw [decide_eq_decide.mpr (not_congr (h.mem_iff v))]
    rfl
  · rw [elems_eq]
    exact h.valid.nodup_elems
  · rw [mem_elems, h.mem_iff]
    rfl
  · obtain ⟨k, hk⟩ := h.valid.size
    refine ⟨k + 3, ?_⟩
    rw [← h.toSound.length, hk, kInline, Nat.pow_add, Nat.mul_comm]
  · obtain ⟨d, -, hd⟩ := h.valid.exists_stop 0
    exact List.mem_of_getElem? hd

/-- The sixth element makes the table grow. -/
def grown : List Op :=
  [.insert 0, .insert 8, .insert 16, .erase 8, .insert 24, .insert 8, .insert 3, .insert 5,
    .insert 6, .clear, .insert 7]

theorem exec_finiteSet_sample : ∃ s₀, new (fun _ => kDel) = some s₀ ∧
    ∃ s, exec (step fun _ => kDel) s₀ grown = some s ∧ s.view.contains 7 = some true := by
  obtain ⟨s₀, hnew, h⟩ := exec_finiteSet fun _ => kDel
  have hsmall : (new fun _ => kDel).all
      (fun s₀ => decide (Always Small (step fun _ => kDel) s₀ grown)) = true := by decide +kernel
  rw [hnew, Option.all_some] at hsmall
  obtain ⟨s, hrun, -, hcontains, -⟩ := h grown (of_decide_eq_true hsmall)
  exact ⟨s₀, hnew, s, hrun, hcontains 7⟩

end Stored
end NodeSet
end CppGuard
