import CppGuard.GraphCycles.NodeSet.Stored

/-!
# How large the table of a `NodeSet` gets

An erased cell stays occupied until the table is doubled, so the size of the table goes with the
number of insertions and not with the number of elements. It is linear in the insertions since the
set was cleared (`size_linear`), and a set that never has two elements can still grow to any size
(`rounds_grow`).
-/
namespace CppGuard
open LinearProbing Transition

namespace NodeSet

/-! ## One insertion -/

/-- An insertion that does not call `Grow` occupies one cell at most. -/
theorem insertWith_none {s s' : NodeSet} {v : Nat} {b : Bool}
    (h : insertWith (fun _ => none) s v = some (b, s')) :
    s'.occupied ≤ s.occupied + 1 ∧ s'.table.length = s.table.length := by
  obtain ⟨i, -, h⟩ := Option.bind_eq_some_iff.mp h
  split_ifs at h
  · obtain ⟨-, rfl⟩ := Prod.mk.inj (Option.some.inj h)
    exact ⟨Nat.le_succ _, rfl⟩
  · cases h
  · obtain ⟨-, rfl⟩ := Prod.mk.inj (Option.some.inj h)
    refine ⟨?_, by simp [store]⟩
    simp only [store]
    split_ifs <;> omega

theorem reinsert_none {vs : List Nat} {s s' : NodeSet}
    (h : vs.foldlM (fun t v => do let r ← insertWith (fun _ => none) t v; return r.2) s = some s') :
    s'.occupied ≤ s.occupied + vs.length ∧ s'.table.length = s.table.length := by
  induction vs generalizing s with
  | nil =>
    obtain rfl := Option.some.inj h
    exact ⟨Nat.le_refl _, rfl⟩
  | cons v vs ih =>
    simp only [List.foldlM_cons, Option.bind_eq_bind, Option.bind_eq_some_iff] at h
    obtain ⟨t, ⟨⟨b, t'⟩, hinsert, ht⟩, hrest⟩ := h
    obtain rfl : t' = t := Option.some.inj ht
    obtain ⟨hocc, hlen⟩ := insertWith_none hinsert
    obtain ⟨hocc', hlen'⟩ := ih hrest
    rw [List.length_cons]
    exact ⟨by omega, hlen'.trans hlen⟩

/-- The elements of a table are stored again, and nothing else is occupied. -/
theorem growAt_one {s s' : NodeSet} (h : growAt 1 s = some s') :
    s'.occupied ≤ used s.table ∧ s'.table.length = s.table.length * 2 := by
  have hnone : growAt 0 = fun _ => none := funext fun _ => rfl
  rw [growAt, hnone] at h
  obtain ⟨hocc, hlen⟩ := reinsert_none h
  rw [List.length_replicate] at hlen
  rw [Nat.zero_add] at hocc
  exact ⟨hocc.trans (length_elems_le s.table), hlen⟩

/-- An insertion occupies a cell, or it finds the table three quarters full and doubles it. -/
theorem insert_size {s s' : NodeSet} {v : Nat} {b : Bool} (h : s.Valid)
    (hinsert : s.insert v = some (b, s')) :
    s'.occupied ≤ s.occupied + 1 ∧ (s'.table.length = s.table.length ∨
      s.table.length - s.table.length / 4 ≤ s.occupied + 1 ∧
        s'.table.length = s.table.length * 2) := by
  by_cases hv : Cell.full v ∈ s.table
  · have hsame : s.insert v = some (false, s) := insertWith_present h hv _
    obtain ⟨-, rfl⟩ := Prod.mk.inj (Option.some.inj (hsame.symm.trans hinsert))
    exact ⟨Nat.le_succ _, Or.inl rfl⟩
  · obtain ⟨s₁, core, hlen, hocc, -, heq⟩ := insertWith_absent h hv (growAt 1)
    have heq : some (b, s') = _ := hinsert.symm.trans heq
    split_ifs at heq with hgrow
    · obtain ⟨s₂, hs₂, heq⟩ := Option.map_eq_some_iff.mp heq.symm
      obtain ⟨-, rfl⟩ := Prod.mk.inj heq
      obtain ⟨hocc', hlen'⟩ := growAt_one hs₂
      have := core.counted
      exact ⟨by omega, Or.inr ⟨by omega, by omega⟩⟩
    · obtain ⟨-, rfl⟩ := Prod.mk.inj (Option.some.inj heq)
      exact ⟨hocc, Or.inl hlen⟩

theorem erase_size {s s' : NodeSet} {v : Nat} (h : s.erase v = some s') :
    s'.occupied = s.occupied ∧ s'.table.length = s.table.length := by
  obtain ⟨i, -, h⟩ := Option.bind_eq_some_iff.mp h
  split_ifs at h
  · obtain rfl := Option.some.inj h
    exact ⟨rfl, by simp⟩
  · obtain rfl := Option.some.inj h
    exact ⟨rfl, rfl⟩

namespace Stored

/-! ## The size is linear in the insertions -/

/-- The insertions since the set was cleared, if there were `n` before. -/
def Op.insertions (n : Nat) : Op → Nat
  | .insert _ => n + 1
  | .erase _ => n
  | .clear => 0

def insertions (ops : List Op) : Nat := ops.foldl Op.insertions 0

variable {fresh : Nat → Cell Nat} {s s' : Stored} {n : Nat} {op : Op} {ops : List Op}

/-- `n` insertions are enough for the occupied cells, and for the size of the table. -/
structure Paid (s : Stored) (n : Nat) : Prop where
  occupied_le : s.occupied ≤ n
  size_le : 3 * s.table.size ≤ 8 * max 3 n

theorem view_new (h : new fresh = some s) : s.view = NodeSet.init := by
  obtain ⟨s', hs', -, hview⟩ := view_init fresh (Vec.new_wellFormed fresh)
  obtain rfl := Option.some.inj (hs'.symm.trans h)
  exact hview

theorem paid_init {table : Vec (Cell Nat)} (htable : table.WellFormed)
    (h : init fresh table = some s) (n : Nat) : s.Paid n := by
  obtain ⟨s', hs', hwf, hview⟩ := view_init fresh htable
  obtain rfl := Option.some.inj (hs'.symm.trans h)
  have hocc : s'.occupied = 0 := congrArg NodeSet.occupied hview
  have hlen : s'.view.table.length = kInline := by rw [hview]; rfl
  rw [Sound.length ⟨hwf, hview ▸ init_valid⟩, kInline] at hlen
  exact ⟨by omega, by omega⟩

theorem Paid.step (h : s.Paid n) (hs : s.Sound) (hsize : s.table.size < 2 ^ 31)
    (hstep : step fresh s op = some s') (hs' : s'.Sound) : s'.Paid (op.insertions n) := by
  have hlen := hs.length
  have hlen' := hs'.length
  have := h.occupied_le
  have := h.size_le
  cases op with
  | insert v =>
    obtain ⟨b, s₁, hinsert, -, hview⟩ := hs.insert fresh hsize v
    rw [Stored.step, hinsert] at hstep
    obtain rfl : s₁ = s' := Option.some.inj hstep
    obtain ⟨hocc, hgrown⟩ := insert_size hs.valid hview
    have hocc : s₁.occupied ≤ s.occupied + 1 := hocc
    rw [hlen, hlen'] at hgrown
    refine ⟨by rw [Op.insertions]; omega, ?_⟩
    rw [Op.insertions]
    obtain hsame | ⟨hfull, hdouble⟩ := hgrown
    · omega
    · have hocc : s.view.occupied = s.occupied := rfl
      omega
  | erase v =>
    obtain ⟨s₁, herase, -, hview⟩ := hs.erase v
    obtain rfl := Option.some.inj (herase.symm.trans hstep)
    obtain ⟨hocc, hsame⟩ := erase_size hview
    have hocc : s₁.occupied = s.occupied := hocc
    exact ⟨by rw [Op.insertions]; omega, by rw [Op.insertions]; omega⟩
  | clear => exact paid_init hs.wellFormed hstep _

/-- The table stays small enough to be doubled for 800 million insertions. Until then every
operation returns, the set has its elements, and the table is linear in the insertions. -/
theorem size_linear (fresh : Nat → Cell Nat) : ∃ s₀, new fresh = some s₀ ∧
    ∀ ops, (∀ pre, pre <+: ops → insertions pre < 3 * 2 ^ 28) →
      ∃ s, exec (step fresh) s₀ ops = some s ∧ Holds s (members ops) ∧
        3 * s.table.size ≤ 8 * max 3 (insertions ops) := by
  obtain ⟨s₀, hnew, hempty⟩ := holds_init fresh (Vec.new_wellFormed fresh)
  refine ⟨s₀, hnew, fun ops hpre => ?_⟩
  suffices ∃ s, exec (step fresh) s₀ ops = some s ∧ Holds s (members ops) ∧
      s.Paid (insertions ops) by
    obtain ⟨s, hrun, hholds, hpaid⟩ := this
    exact ⟨s, hrun, hholds, hpaid.size_le⟩
  induction ops using List.reverseRecOn with
  | nil => exact ⟨s₀, rfl, hempty, paid_init (Vec.new_wellFormed fresh) hnew 0⟩
  | append_singleton ops op ih =>
    obtain ⟨s, hrun, hholds, hpaid⟩ := ih fun pre h => hpre pre (h.trans (List.prefix_append ..))
    have hsmall := hpre ops (List.prefix_append ..)
    have hsize : s.table.size < 2 ^ 31 := by
      have := hpaid.size_le
      omega
    obtain ⟨s', hstep, hholds'⟩ := holds_step hholds hsize op
    have hpaid' := hpaid.step hholds.toSound hsize hstep hholds'.toSound
    refine ⟨s', exec_concat.mpr ⟨s, hrun, hstep⟩, ?_, ?_⟩
    · rw [members, List.foldl_concat]
      exact hholds'
    · rw [insertions, List.foldl_concat]
      exact hpaid'

/-! ## A set that never has two elements -/

/-- Every value is inserted and erased at once. -/
def rounds (vs : List Nat) : List Op := vs.flatMap fun v => [.insert v, .erase v]

/-- No element is left, but the table may have occupied cells. -/
structure Hollow (s : Stored) : Prop extends s.Sound where
  absent : ∀ v, Cell.full v ∉ s.view.table

theorem hollow_iff : s.Hollow ↔ Holds s ∅ :=
  ⟨fun h => ⟨h.toSound, fun v => iff_of_false (h.absent v) (Finset.notMem_empty v)⟩,
    fun h => ⟨h.toSound, fun v hv => Finset.notMem_empty v ((h.mem_iff v).mp hv)⟩⟩

theorem rounds_cons (v : Nat) (vs : List Nat) :
    rounds (v :: vs) = .insert v :: .erase v :: rounds vs := rfl

theorem rounds_members (vs : List Nat) (pre : List Op) (h : pre <+: rounds vs) :
    (members pre).card ≤ 1 := by
  rw [members]
  induction vs generalizing pre with
  | nil =>
    rw [List.prefix_nil.mp h]
    simp
  | cons v vs ih =>
    rw [rounds_cons, List.prefix_cons_iff] at h
    obtain rfl | ⟨pre, rfl, h⟩ := h
    · simp
    · obtain rfl | ⟨pre, rfl, h⟩ := List.prefix_cons_iff.mp h
      · simp [Op.apply]
      · simpa [Op.apply] using ih pre (List.cons_prefix_cons.mp h).2

/-- A value for each cell, whose probe walk starts there. -/
theorem exists_home {k i : Nat} (hk : k ≤ 31) (hi : i < 2 ^ k) :
    ∃ v < 2 ^ 31, hash v % 2 ^ k = i := by
  -- the inverse of 41 modulo `2 ^ 31`
  have hinverse : 1099930649 * 41 = 1 + 21 * 2 ^ 31 := by decide
  have hdvd : 2 ^ k ∣ 2 ^ 31 := Nat.pow_dvd_pow 2 hk
  have hdvd' : 2 ^ k ∣ 2 ^ 32 := Nat.pow_dvd_pow 2 (by omega)
  refine ⟨i * 1099930649 % 2 ^ 31, Nat.mod_lt _ (by decide), ?_⟩
  have hmod : i * 1099930649 % 2 ^ 31 * 41 ≡ i * 1099930649 * 41 [MOD 2 ^ k] :=
    ((Nat.mod_modEq _ _).of_dvd hdvd).mul_right 41
  have hone : i * 1099930649 * 41 ≡ i [MOD 2 ^ k] := by
    rw [Nat.mul_assoc, hinverse, Nat.mul_add, Nat.mul_one, ← Nat.mul_assoc]
    exact (Nat.modEq_zero_iff_dvd.mpr (hdvd.mul_left _)).add_left i
  rw [hash, Nat.mod_mod_of_dvd _ hdvd']
  have heq : _ % _ = _ % _ := hmod.trans hone
  rw [heq, Nat.mod_eq_of_lt hi]

/-- A value whose walk starts at a vacant cell is stored there. -/
theorem findIndex_home {set : NodeSet} (h : set.Valid) {v i : Nat}
    (hi : set.table[i]? = some kEmpty) (hv : hash v % set.table.length = i) :
    set.findIndex v = some i := by
  obtain ⟨j, hj, c, -, rfl, hbefore, -⟩ := findIndex_of_valid h v
  have hhome : probeAt set.table.length (hash v) 0 = i := hv
  cases c with
  | zero => rw [hj, hhome]
  | succ c => exact absurd (hhome ▸ hi) (hbefore 0 (Nat.succ_pos c))

theorem insert_home {set set' : NodeSet} (h : set.Valid) {v i : Nat} {b : Bool}
    (hi : set.table[i]? = some kEmpty) (hv : hash v % set.table.length = i)
    (hinsert : set.insert v = some (b, set')) :
    (set'.table.length = set.table.length ∧ set'.occupied = set.occupied + 1) ∨
      set'.table.length = set.table.length * 2 := by
  obtain ⟨j, hj, hinsert⟩ := Option.bind_eq_some_iff.mp hinsert
  obtain rfl := Option.some.inj ((findIndex_home h hi hv).symm.trans hj)
  rw [if_neg (by simp [hi])] at hinsert
  split_ifs at hinsert
  · obtain ⟨s₁, hgrow, hs₁⟩ := Option.bind_eq_some_iff.mp hinsert
    obtain ⟨-, rfl⟩ := Prod.mk.inj (Option.some.inj hs₁)
    exact Or.inr ((growAt_one hgrow).2.trans (by simp [NodeSet.store]))
  · obtain ⟨-, rfl⟩ := Prod.mk.inj (Option.some.inj hinsert)
    exact Or.inl (by simp [NodeSet.store, hi])

/-- One more cell is occupied, or the table is doubled. -/
theorem Hollow.round (h : s.Hollow) (hsize : s.table.size < 2 ^ 31) (fresh : Nat → Cell Nat) :
    ∃ v < 2 ^ 31, ∃ s', exec (step fresh) s (rounds [v]) = some s' ∧ s'.Hollow ∧
      (s'.table.size = s.table.size ∧ s'.occupied = s.occupied + 1 ∨
        s'.table.size = s.table.size * 2) := by
  obtain ⟨k, hk⟩ := h.valid.size
  have hpow : s.table.size = 2 ^ (k + 3) := by
    rw [← h.toSound.length, hk, kInline, Nat.pow_add, Nat.mul_comm]
  have hk31 : k + 3 < 31 := by
    rw [hpow] at hsize
    exact (Nat.pow_lt_pow_iff_right (by decide)).mp hsize
  obtain ⟨d, hd, hvacant⟩ := h.valid.exists_stop 0
  set i := probeAt s.view.table.length (hash 0) d with hi
  have hlt : i < 2 ^ (k + 3) := by
    rw [← hpow, ← h.toSound.length]
    exact probeAt_lt _ _ (by omega)
  obtain ⟨v, hv, hhome⟩ := exists_home (by omega) hlt
  rw [← hpow, ← h.toSound.length] at hhome
  obtain ⟨b, s₁, hinsert, hwf, hview⟩ := h.toSound.insert fresh hsize v
  have hstep₁ : step fresh s (.insert v) = some s₁ := by rw [Stored.step, hinsert]; rfl
  obtain ⟨s₁', hs₁, h₁⟩ := holds_step (hollow_iff.mp h) hsize (.insert v)
  obtain rfl := Option.some.inj (hstep₁.symm.trans hs₁)
  obtain ⟨s₂, herase, hwf₂, hview₂⟩ := h₁.toSound.erase v
  obtain ⟨set, hvalid, hset, hmem⟩ := erase_of_valid h₁.valid v
  obtain rfl := Option.some.inj (hview₂.symm.trans hset)
  have h₂ : s₂.Hollow := by
    refine ⟨⟨hwf₂, hvalid⟩, fun w hw => ?_⟩
    obtain ⟨hne, hw⟩ := (hmem w).mp hw
    obtain rfl : w = v := by simpa [Op.apply] using (h₁.mem_iff w).mp hw
    exact hne rfl
  refine ⟨v, hv, s₂, exec_cons.mpr ⟨s₁, hstep₁, exec_cons.mpr ⟨s₂, herase, rfl⟩⟩, h₂, ?_⟩
  have hhome := insert_home h.valid hvacant hhome hview
  obtain ⟨hocc, hlen⟩ := erase_size hview₂
  rw [h₁.toSound.length, h₂.toSound.length] at hlen
  rw [h₁.toSound.length, h.toSound.length] at hhome
  have hocc : s₂.occupied = s₁.occupied := hocc
  rw [hlen, hocc]
  exact hhome

/-- As long as there are vacant cells in three quarters of the table, a round takes one. -/
theorem Hollow.double (h : s.Hollow) (hsize : s.table.size < 2 ^ 31) (fresh : Nat → Cell Nat) :
    ∃ vs, (∀ v ∈ vs, v < 2 ^ 31) ∧ ∃ s', exec (step fresh) s (rounds vs) = some s' ∧ s'.Hollow ∧
      s'.table.size = s.table.size * 2 := by
  induction hn : s.table.size - s.occupied using Nat.strongRecOn generalizing s with
  | _ n ih =>
    obtain ⟨v, hv, s₁, hrun₁, h₁, ⟨hsame, hocc⟩ | hdouble⟩ := h.round hsize fresh
    · have hroom := h₁.valid.room
      rw [h₁.toSound.length] at hroom
      have hroom : s₁.occupied < s₁.table.size - s₁.table.size / 4 := hroom
      obtain ⟨vs, hvs, s', hrun, h', hsize'⟩ :=
        ih (s₁.table.size - s₁.occupied) (by omega) h₁ (hsame ▸ hsize) rfl
      refine ⟨v :: vs, List.forall_mem_cons.mpr ⟨hv, hvs⟩, s', ?_, h', by omega⟩
      exact exec_append.mpr ⟨s₁, hrun₁, hrun⟩
    · exact ⟨[v], List.forall_mem_singleton.mpr hv, s₁, hrun₁, h₁, hdouble⟩

/-- The table of a set that never has two elements gets as large as a vector can be. -/
theorem rounds_grow (fresh : Nat → Cell Nat) : ∃ s₀, new fresh = some s₀ ∧
    ∀ k, 3 ≤ k → k ≤ 31 → ∃ vs, (∀ v ∈ vs, v < 2 ^ 31) ∧
      (∀ pre, pre <+: rounds vs → (members pre).card ≤ 1) ∧
      ∃ s, exec (step fresh) s₀ (rounds vs) = some s ∧ s.table.size = 2 ^ k := by
  obtain ⟨s₀, hnew, hempty⟩ := holds_init fresh (Vec.new_wellFormed fresh)
  refine ⟨s₀, hnew, fun k hk3 hk => ?_⟩
  suffices ∃ vs, (∀ v ∈ vs, v < 2 ^ 31) ∧ ∃ s, exec (step fresh) s₀ (rounds vs) = some s ∧
      s.Hollow ∧ s.table.size = 2 ^ k by
    obtain ⟨vs, hvs, s, hrun, -, hsize⟩ := this
    exact ⟨vs, hvs, rounds_members vs, s, hrun, hsize⟩
  induction k, hk3 using Nat.le_induction with
  | base =>
    refine ⟨[], by simp, s₀, rfl, hollow_iff.mpr hempty, ?_⟩
    rw [← hempty.toSound.length, view_new hnew]
    rfl
  | succ k hk3 ih =>
    obtain ⟨vs, hvs, s, hrun, h, hsize⟩ := ih (by omega)
    have hlt : s.table.size < 2 ^ 31 := by
      rw [hsize]
      exact Nat.pow_lt_pow_right (by decide) (by omega)
    obtain ⟨ws, hws, s', hrun', h', hsize'⟩ := h.double hlt fresh
    refine ⟨vs ++ ws, List.forall_mem_append.mpr ⟨hvs, hws⟩, s', ?_, h', ?_⟩
    · rw [rounds, List.flatMap_append]
      exact exec_append.mpr ⟨s, hrun, hrun'⟩
    · rw [hsize', hsize, Nat.pow_succ]

end Stored
end NodeSet
end CppGuard
