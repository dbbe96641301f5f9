import CppGuard.GraphCycles.NodeSet.Basic
import Mathlib.Data.List.Nodup
import Mathlib.Algebra.Order.Group.Nat

/-!
# `NodeSet` is a finite set

`Core` is what holds of a table at every moment, `Valid` what holds between two
operations: there the table also has a vacant quarter. Every probe walk on a valid
table ends (`findIndex_of_valid`), an insertion keeps the table valid even when it
grows (`insert_of_valid`), and so the operations restricted to `ValidNodeSet` are total
with the laws of a finite set.
-/
namespace CppGuard
open LinearProbing

namespace NodeSet

structure Core (s : NodeSet) : Prop where
  size : ∃ k, s.table.length = kInline * 2 ^ k
  placed : Placed hash s.table
  counted : s.occupied = used s.table

structure Valid (s : NodeSet) : Prop extends Core s where
  room : s.occupied < s.table.length - s.table.length / 4

theorem Core.mask {s : NodeSet} (h : s.Core) (i : Nat) :
    i &&& (s.table.length - 1) = i % s.table.length := by
  obtain ⟨k, hk⟩ := h.size
  have : s.table.length = 2 ^ (k + 3) := by rw [hk, kInline, Nat.pow_add]; omega
  rw [this, Nat.and_two_pow_sub_one_eq_mod]

theorem Core.kInline_le {s : NodeSet} (h : s.Core) : kInline ≤ s.table.length := by
  obtain ⟨k, hk⟩ := h.size
  rw [hk]
  exact Nat.le_mul_of_pos_right _ (Nat.two_pow_pos k)

theorem Valid.exists_stop {s : NodeSet} (h : s.Valid) (v : Nat) :
    ∃ d < s.table.length, s.table[probeAt s.table.length (hash v) d]? = some kEmpty := by
  have hroom := h.room
  rw [h.counted] at hroom
  obtain ⟨i, hi⟩ := exists_vacant (show used s.table < s.table.length by omega)
  obtain ⟨hlt, _⟩ := List.getElem?_eq_some_iff.mp hi
  obtain ⟨d, hd, rfl⟩ := exists_probeAt (hash v) hlt
  exact ⟨d, hd, hi⟩

/-- What `FindIndex` promises of the index `i` it returns for `v`: no vacant cell lies
before it, and it holds `v`, or else `v` is absent and the cell can be written. -/
def Spot (t : List (Cell Nat)) (v i : Nat) : Prop :=
  ∃ c < t.length, i = probeAt t.length (hash v) c ∧
    (∀ e < c, t[probeAt t.length (hash v) e]? ≠ some kEmpty) ∧
    (t[i]? = some (.full v) ∨
      Cell.full v ∉ t ∧ (t[i]? = some kEmpty ∨ t[i]? = some kDel))

/-- The probe loop after `d` steps. The induction is on the fuel; the first vacant cell,
at offset `stop`, bounds the walk. -/
theorem probe_spot {s : NodeSet} (h : s.Core) {v stop : Nat}
    (hstop : s.table[probeAt s.table.length (hash v) stop]? = some kEmpty)
    (hlt : stop < s.table.length) (fuel d : Nat) (del : Option Nat) (hd : d ≤ stop)
    (hfuel : stop < d + fuel)
    (before : ∀ e < d, s.table[probeAt s.table.length (hash v) e]? ≠ some kEmpty ∧
      s.table[probeAt s.table.length (hash v) e]? ≠ some (.full v))
    (hdel : ∀ j ∈ del, ∃ c < d, j = probeAt s.table.length (hash v) c ∧
      s.table[j]? = some kDel) :
    ∃ i, probe s.table v fuel (probeAt s.table.length (hash v) d) del = some i ∧
      Spot s.table v i := by
  have hpos : 0 < s.table.length := by omega
  induction fuel generalizing d del with
  | zero => omega
  | succ fuel ih =>
    obtain ⟨c, hcell⟩ : ∃ c, s.table[probeAt s.table.length (hash v) d]? = some c :=
      ⟨_, List.getElem?_eq_getElem (probeAt_lt (hash v) d hpos)⟩
    have next : s.table[probeAt s.table.length (hash v) d]? ≠ some kEmpty →
        s.table[probeAt s.table.length (hash v) d]? ≠ some (.full v) →
        d + 1 ≤ stop ∧ ∀ e < d + 1,
          s.table[probeAt s.table.length (hash v) e]? ≠ some kEmpty ∧
          s.table[probeAt s.table.length (hash v) e]? ≠ some (.full v) := by
      intro hv hf
      refine ⟨?_, fun e he => ?_⟩
      · rcases Nat.lt_or_ge d stop with hlt | hge
        · exact hlt
        · obtain rfl : d = stop := by omega
          exact absurd hstop hv
      · rcases Nat.lt_succ_iff_lt_or_eq.mp he with he | rfl
        · exact before e he
        · exact ⟨hv, hf⟩
    simp only [probe, hcell, h.mask, probeAt_succ]
    cases c with
    | vacant =>
      have absent := h.placed.notMem_of_vacant hcell (fun e he => (before e he).2)
      cases del with
      | none => exact ⟨_, rfl, d, by omega, rfl, fun e he => (before e he).1,
          Or.inr ⟨absent, Or.inl hcell⟩⟩
      | some j =>
        obtain ⟨c, hcd, hj, hjdel⟩ := hdel j rfl
        exact ⟨j, rfl, c, by omega, hj, fun e he => (before e (by omega)).1,
          Or.inr ⟨absent, Or.inr hjdel⟩⟩
    | deleted =>
      obtain ⟨hle, hbefore⟩ := next (by simp [hcell]) (by simp [hcell])
      refine ih (d + 1) _ hle (by omega) hbefore ?_
      intro j hj
      cases del with
      | none =>
        obtain rfl : probeAt s.table.length (hash v) d = j := by simpa using hj
        exact ⟨d, by omega, rfl, hcell⟩
      | some j' =>
        obtain rfl : j' = j := by simpa using hj
        obtain ⟨c, hcd, hj', hjdel⟩ := hdel j' rfl
        exact ⟨c, by omega, hj', hjdel⟩
    | full w =>
      by_cases hvw : v = w
      · subst hvw
        simp only [if_true]
        exact ⟨_, rfl, d, by omega, rfl, fun e he => (before e he).1, Or.inl hcell⟩
      · simp only [if_neg hvw]
        obtain ⟨hle, hbefore⟩ := next (by simp [hcell])
          (by simpa [hcell] using Ne.symm hvw)
        refine ih (d + 1) _ hle (by omega) hbefore ?_
        intro j hj
        obtain ⟨c, hcd, hj', hjdel⟩ := hdel j hj
        exact ⟨c, by omega, hj', hjdel⟩

/-- Every probe loop on a valid table ends, at a spot for its key. -/
theorem findIndex_of_valid {s : NodeSet} (h : s.Valid) (v : Nat) :
    ∃ i, s.findIndex v = some i ∧ Spot s.table v i := by
  obtain ⟨stop, hlt, hstop⟩ := h.exists_stop v
  have start : hash v &&& (s.table.length - 1) = probeAt s.table.length (hash v) 0 := by
    rw [h.toCore.mask, probeAt, Nat.add_zero]
  rw [findIndex, start]
  exact probe_spot h.toCore hstop hlt _ 0 none (Nat.zero_le _) (by omega)
    (by simp) (by simp)

theorem Spot.lt {t : List (Cell Nat)} {v i : Nat} (h : Spot t v i) : i < t.length := by
  obtain ⟨c, hc, rfl, _⟩ := h
  exact probeAt_lt _ _ (by omega)

theorem Spot.found_iff {t : List (Cell Nat)} {v i : Nat} (h : Spot t v i) :
    t[i]? = some (.full v) ↔ Cell.full v ∈ t := by
  obtain ⟨_, _, _, _, hfull | ⟨absent, _⟩⟩ := h
  · exact ⟨fun _ => List.mem_of_getElem? hfull, fun _ => hfull⟩
  · exact ⟨List.mem_of_getElem?, fun hm => absurd hm absent⟩

theorem contains_of_valid {s : NodeSet} (h : s.Valid) (v : Nat) :
    s.contains v = some (decide (Cell.full v ∈ s.table)) := by
  obtain ⟨i, hi, spot⟩ := findIndex_of_valid h v
  simp [contains, hi, spot.found_iff]

/-- Storing an absent element, before the table is possibly grown. -/
theorem Valid.store {s : NodeSet} (h : s.Valid) {v i : Nat} (spot : Spot s.table v i)
    (fresh : Cell.full v ∉ s.table) :
    (s.store i v).Core ∧ (s.store i v).table.length = s.table.length ∧
      (s.store i v).occupied ≤ s.occupied + 1 ∧
      ∀ w, Cell.full w ∈ (s.store i v).table ↔ w = v ∨ Cell.full w ∈ s.table := by
  have hlt := spot.lt
  have notFound : s.table[i]? ≠ some (.full v) := fun hf => fresh (spot.found_iff.mp hf)
  obtain ⟨c, hc, hic, before, hfull | ⟨_, hcell⟩⟩ := spot
  · exact absurd hfull notFound
  · have free : ∀ w, s.table[i]? ≠ some (.full w) := by
      rintro w hw
      rcases hcell with hcell | hcell <;> rw [hcell] at hw <;> cases hw
    refine ⟨⟨?_, ?_, ?_⟩, by simp [NodeSet.store], ?_, fun w => full_mem_set hlt free⟩
    · simpa [NodeSet.store] using h.size
    · have hplaced := h.placed.insert hc fresh before
      rwa [← hic] at hplaced
    · simp only [NodeSet.store]
      rcases hcell with hcell | hcell <;>
        rw [used_set hcell (by simp), ← h.counted] <;> simp [hcell]
    · simp only [NodeSet.store]; split_ifs <;> omega

theorem insertWith_absent {s : NodeSet} (h : s.Valid) {v : Nat} (fresh : Cell.full v ∉ s.table)
    (grow : NodeSet → Option NodeSet) :
    ∃ s' : NodeSet, s'.Core ∧ s'.table.length = s.table.length ∧
      s'.occupied ≤ s.occupied + 1 ∧
      (∀ w, Cell.full w ∈ s'.table ↔ w = v ∨ Cell.full w ∈ s.table) ∧
      insertWith grow s v =
        if s'.table.length - s'.table.length / 4 ≤ s'.occupied
        then (grow s').map (true, ·) else some (true, s') := by
  obtain ⟨i, hi, spot⟩ := findIndex_of_valid h v
  have notFound : s.table[i]? ≠ some (.full v) := fun hf => fresh (spot.found_iff.mp hf)
  obtain ⟨core, hlen, hocc, hmem⟩ := h.store spot fresh
  refine ⟨s.store i v, core, hlen, hocc, hmem, ?_⟩
  simp only [insertWith, hi, Option.bind_eq_bind, Option.bind_some, if_neg notFound, hlen]
  split_ifs
  · cases grow (s.store i v) <;> rfl
  · rfl

theorem insertWith_present {s : NodeSet} (h : s.Valid) {v : Nat} (present : Cell.full v ∈ s.table)
    (grow : NodeSet → Option NodeSet) : insertWith grow s v = some (false, s) := by
  obtain ⟨i, hi, spot⟩ := findIndex_of_valid h v
  simp [insertWith, hi, spot.found_iff.mpr present]

theorem length_elems_le (t : List (Cell Nat)) : (t.filterMap cellElem).length ≤ used t := by
  induction t with
  | nil => simp
  | cons c cs ih =>
    simp only [used, List.filterMap_cons, List.countP_cons] at ih ⊢
    cases c <;> simp [cellElem] at ih ⊢ <;> omega

theorem Core.nodup_elems {s : NodeSet} (h : s.Core) : (s.table.filterMap cellElem).Nodup := by
  rw [List.nodup_iff_pairwise_ne, List.pairwise_filterMap, List.pairwise_iff_getElem]
  intro i j hi hj hij a ha b hb hab
  subst hab
  have full : ∀ c : Cell Nat, a ∈ cellElem c → c = .full a := by
    intro c hc
    cases c <;> simp_all [cellElem]
  have := h.placed.unique i j a
    (by rw [List.getElem?_eq_getElem hi, full _ ha])
    (by rw [List.getElem?_eq_getElem hj, full _ hb])
  omega

/-- Re-insertion into a table that has room for everything left never grows it. -/
theorem reinsert {size : Nat} (grow : NodeSet → Option NodeSet) (vs : List Nat) (t : NodeSet)
    (ht : t.Valid) (hsize : t.table.length = size) (nodup : vs.Nodup)
    (fresh : ∀ v ∈ vs, Cell.full v ∉ t.table)
    (room : t.occupied + vs.length < size - size / 4) :
    ∃ t' : NodeSet, t'.Valid ∧ t'.table.length = size ∧
      vs.foldlM (fun t v => do let r ← insertWith grow t v; return r.2) t = some t' ∧
      ∀ w, Cell.full w ∈ t'.table ↔ w ∈ vs ∨ Cell.full w ∈ t.table := by
  induction vs generalizing t with
  | nil => exact ⟨t, ht, hsize, rfl, by simp⟩
  | cons v vs ih =>
    obtain ⟨hv, hvs⟩ := List.nodup_cons.mp nodup
    obtain ⟨t₁, core, hlen, hocc, hmem, heq⟩ := insertWith_absent ht (fresh v (by simp)) grow
    rw [List.length_cons] at room
    have hsmall : t₁.occupied < t₁.table.length - t₁.table.length / 4 := by
      rw [hlen, hsize]; omega
    rw [if_neg (by omega)] at heq
    obtain ⟨t', valid, hlen', hfold, hmem'⟩ := ih t₁ ⟨core, hsmall⟩ (hlen.trans hsize) hvs
      (by
        intro w hw hin
        rcases (hmem w).mp hin with rfl | hin
        · exact hv hw
        · exact fresh w (by simp [hw]) hin)
      (by omega)
    refine ⟨t', valid, hlen', ?_, fun w => ?_⟩
    · rw [List.foldlM_cons, heq]
      exact hfold
    · rw [hmem', hmem, List.mem_cons]
      tauto

/-- The empty table of twice the size. -/
def doubled (s : NodeSet) : NodeSet := ⟨List.replicate (s.table.length * 2) kEmpty, 0⟩

theorem Core.doubled_valid {s : NodeSet} (h : s.Core) : s.doubled.Valid := by
  refine ⟨⟨?_, Placed.replicate hash _, (used_replicate _).symm⟩, ?_⟩
  · obtain ⟨k, hk⟩ := h.size
    exact ⟨k + 1, by rw [doubled, List.length_replicate, hk, Nat.pow_succ, Nat.mul_assoc]⟩
  · have hle := h.kInline_le
    simp only [doubled, List.length_replicate, kInline] at hle ⊢
    omega

/-- It takes all the elements of a table that is three quarters full. -/
theorem Core.reinsert_all {s : NodeSet} (h : s.Core)
    (hocc : s.occupied ≤ s.table.length - s.table.length / 4) (grow : NodeSet → Option NodeSet) :
    ∃ s' : NodeSet, s'.Valid ∧
      (s.table.filterMap cellElem).foldlM
        (fun t v => do let r ← insertWith grow t v; return r.2) s.doubled = some s' ∧
      ∀ w, Cell.full w ∈ s'.table ↔ Cell.full w ∈ s.table := by
  have hle := h.kInline_le
  have hcount := length_elems_le s.table
  rw [← h.counted] at hcount
  obtain ⟨s', valid, _, hfold, hmem⟩ := reinsert grow (s.table.filterMap cellElem) s.doubled
    h.doubled_valid (List.length_replicate ..) h.nodup_elems
    (by simp [doubled])
    (by simp only [kInline, doubled, Nat.zero_add] at hle ⊢; omega)
  refine ⟨s', valid, hfold, fun w => ?_⟩
  rw [hmem w, ← elems_eq, mem_elems]
  simp [doubled]

theorem growAt_of_core {s : NodeSet} (h : s.Core)
    (hocc : s.occupied ≤ s.table.length - s.table.length / 4) (depth : Nat) :
    ∃ s' : NodeSet, s'.Valid ∧ growAt (depth + 1) s = some s' ∧
      ∀ w, Cell.full w ∈ s'.table ↔ Cell.full w ∈ s.table :=
  h.reinsert_all hocc (growAt depth)

/-- `insert` returns, whether or not the table grows, and adds exactly `v`. -/
theorem insert_of_valid {s : NodeSet} (h : s.Valid) (v : Nat) :
    ∃ s' : NodeSet, s'.Valid ∧ s.insert v = some (decide (Cell.full v ∉ s.table), s') ∧
      (∀ w, Cell.full w ∈ s'.table ↔ w = v ∨ Cell.full w ∈ s.table) ∧
      (Cell.full v ∈ s.table → s' = s) := by
  by_cases hv : Cell.full v ∈ s.table
  · refine ⟨s, h, ?_, ?_, fun _ => rfl⟩
    · simp [insert, insertWith_present h hv, hv]
    · rintro w
      exact ⟨Or.inr, fun hw => hw.elim (fun e => e ▸ hv) id⟩
  · obtain ⟨s₁, core, hlen, hocc, hmem, heq⟩ := insertWith_absent h hv (growAt 1)
    have hroom := h.room
    by_cases hgrow : s₁.table.length - s₁.table.length / 4 ≤ s₁.occupied
    · obtain ⟨s₂, valid, hs₂, hmem₂⟩ := growAt_of_core core (by rw [hlen]; omega) 0
      refine ⟨s₂, valid, ?_, fun w => (hmem₂ w).trans (hmem w), fun hin => absurd hin hv⟩
      rw [insert, heq, if_pos hgrow, hs₂]
      simp [hv]
    · refine ⟨s₁, ⟨core, by omega⟩, ?_, hmem, fun hin => absurd hin hv⟩
      rw [insert, heq, if_neg hgrow]
      simp [hv]

theorem erase_of_valid {s : NodeSet} (h : s.Valid) (v : Nat) :
    ∃ s' : NodeSet, s'.Valid ∧ s.erase v = some s' ∧
      ∀ w, Cell.full w ∈ s'.table ↔ w ≠ v ∧ Cell.full w ∈ s.table := by
  obtain ⟨i, hi, spot⟩ := findIndex_of_valid h v
  by_cases hfull : s.table[i]? = some (.full v)
  · refine ⟨⟨s.table.set i kDel, s.occupied⟩, ⟨⟨?_, h.placed.erase i, ?_⟩, ?_⟩, ?_,
      fun w => h.placed.full_mem_erase hfull⟩
    · simpa using h.size
    · rw [used_set hfull (by simp), h.counted]; simp
    · simpa using h.room
    · simp [erase, hi, hfull]
  · refine ⟨s, h, by simp [erase, hi, hfull], fun w => ?_⟩
    have absent : Cell.full v ∉ s.table := fun hm => hfull (spot.found_iff.mpr hm)
    exact ⟨fun hw => ⟨fun e => absent (e ▸ hw), hw⟩, And.right⟩

theorem init_valid : init.Valid :=
  ⟨⟨⟨0, rfl⟩, Placed.replicate hash _, (used_replicate _).symm⟩, by decide⟩

end NodeSet

/-! ## The sets of the graph -/

/-- A set whose table is well formed; the operations below are total on it. Its table has no
largest size here, unlike the one of `Stored`; `InsertFits` says when that makes no difference. -/
def ValidNodeSet : Type := { s : NodeSet // s.Valid }

namespace ValidNodeSet

instance : EmptyCollection ValidNodeSet := ⟨⟨NodeSet.init, NodeSet.init_valid⟩⟩
instance : Inhabited ValidNodeSet := ⟨∅⟩
instance : Membership Nat ValidNodeSet := ⟨fun s v => Cell.full v ∈ s.val.table⟩
instance (v : Nat) (s : ValidNodeSet) : Decidable (v ∈ s) :=
  inferInstanceAs (Decidable (Cell.full v ∈ s.val.table))

theorem insert_isSome (s : ValidNodeSet) (v : Nat) : (s.val.insert v).isSome := by
  obtain ⟨s', _, hs', _⟩ := NodeSet.insert_of_valid s.2 v
  simp [hs']

theorem insert_valid (s : ValidNodeSet) (v : Nat) :
    ((s.val.insert v).get (s.insert_isSome v)).2.Valid := by
  obtain ⟨s', hv, hs', _⟩ := NodeSet.insert_of_valid s.2 v
  simpa [hs'] using hv

theorem erase_isSome (s : ValidNodeSet) (v : Nat) : (s.val.erase v).isSome := by
  obtain ⟨s', _, hs', _⟩ := NodeSet.erase_of_valid s.2 v
  simp [hs']

theorem erase_valid (s : ValidNodeSet) (v : Nat) :
    ((s.val.erase v).get (s.erase_isSome v)).Valid := by
  obtain ⟨s', hv, hs', _⟩ := NodeSet.erase_of_valid s.2 v
  simpa [hs'] using hv

theorem contains_isSome (s : ValidNodeSet) (v : Nat) : (s.val.contains v).isSome := by
  simp [NodeSet.contains_of_valid s.2]

def insert (s : ValidNodeSet) (v : Nat) : Bool × ValidNodeSet :=
  (((s.val.insert v).get (s.insert_isSome v)).1, ⟨_, s.insert_valid v⟩)

def erase (s : ValidNodeSet) (v : Nat) : ValidNodeSet := ⟨_, s.erase_valid v⟩

def contains (s : ValidNodeSet) (v : Nat) : Bool := (s.val.contains v).get (s.contains_isSome v)

/-- The elements in iteration order. -/
def elems (s : ValidNodeSet) : List Nat := s.val.elems

@[simp] theorem notMem_empty (v : Nat) : v ∉ (∅ : ValidNodeSet) := by
  change Cell.full v ∉ List.replicate kInline kEmpty
  simp

@[simp] theorem mem_elems {s : ValidNodeSet} {v : Nat} : v ∈ s.elems ↔ v ∈ s :=
  NodeSet.mem_elems

theorem nodup_elems (s : ValidNodeSet) : s.elems.Nodup := by
  rw [elems, NodeSet.elems_eq]
  exact s.2.toCore.nodup_elems

@[simp] theorem contains_eq (s : ValidNodeSet) (v : Nat) : s.contains v = decide (v ∈ s) := by
  simp only [contains, NodeSet.contains_of_valid s.2, Option.get_some]
  rfl

theorem insert_fst (s : ValidNodeSet) (v : Nat) : (s.insert v).1 = decide (v ∉ s) := by
  obtain ⟨s', _, hs', _⟩ := NodeSet.insert_of_valid s.2 v
  simp only [insert, hs', Option.get_some]
  rfl

@[simp] theorem mem_insert {s : ValidNodeSet} {v w : Nat} :
    w ∈ (s.insert v).2 ↔ w = v ∨ w ∈ s := by
  obtain ⟨s', _, hs', hmem, _⟩ := NodeSet.insert_of_valid s.2 v
  have := hmem w
  simp only [insert, Membership.mem] at *
  simpa only [hs', Option.get_some] using this

theorem insert_of_mem {s : ValidNodeSet} {v : Nat} (h : v ∈ s) : s.insert v = (false, s) := by
  obtain ⟨s', _, hs', _, hsame⟩ := NodeSet.insert_of_valid s.2 v
  refine Prod.ext ?_ (Subtype.ext ?_)
  · rw [insert_fst]; simpa using h
  · simp only [insert, hs', Option.get_some]
    exact hsame h

@[simp] theorem mem_erase {s : ValidNodeSet} {v w : Nat} :
    w ∈ s.erase v ↔ w ≠ v ∧ w ∈ s := by
  obtain ⟨s', _, hs', hmem⟩ := NodeSet.erase_of_valid s.2 v
  have := hmem w
  simp only [erase, Membership.mem] at *
  simpa only [hs', Option.get_some] using this

end ValidNodeSet

end CppGuard
