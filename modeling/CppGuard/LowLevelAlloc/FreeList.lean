import CppGuard.Library.SkipList
import CppGuard.LowLevelAlloc
import Mathlib.Data.List.Perm.Subperm
import Mathlib.Data.Nat.Basic

/-!
# The skip list of free blocks

What the search, the insertion and the deletion do to a free list. They change only the links and
the levels of the head and the links of the nodes.
-/
namespace CppGuard
open LinkedChain SkipList

/-- The header of a block. -/
def AllocList.header (b : AllocList) : Nat × Nat × Option Nat := (b.size, b.magic, b.arena)

namespace Memory

variable {σ : Type} {platform : Platform σ} {m m' : Memory σ} {arena a e p x : Nat} {i j : Nat}

/-! ## Writing to memory -/

@[simp] theorem node_modifyNode_self (f : AllocList → AllocList) :
    (m.modifyNode a f).node a = f (m.node a) := Function.update_self ..

theorem node_modifyNode_of_ne (f : AllocList → AllocList) (h : x ≠ a) :
    (m.modifyNode a f).node x = m.node x := Function.update_of_ne h ..

/-- Writing keeps what `P` says of every node, if it keeps it for the node that is written. -/
theorem modifyNode_field {β : Type} (P : AllocList → β) {f : AllocList → AllocList}
    (h : P (f (m.node a)) = P (m.node a)) (x : Nat) :
    P ((m.modifyNode a f).node x) = P (m.node x) := by
  by_cases hx : x = a
  · rw [hx, node_modifyNode_self, h]
  · rw [node_modifyNode_of_ne f hx]

/-- Only links have changed, and the levels of the head. -/
structure Relinked (m m' : Memory σ) (arena : Nat) (nodes : List Nat) : Prop where
  header : ∀ x, (m'.node x).header = (m.node x).header
  levels : ∀ x, x ≠ arena → (m'.node x).levels = (m.node x).levels
  other : ∀ x, x ≠ arena → x ∉ nodes → m'.node x = m.node x
  arenas : m'.arena = m.arena
  runs : m'.runs = m.runs

theorem Relinked.refl (m : Memory σ) (arena : Nat) (nodes : List Nat) :
    Relinked m m arena nodes :=
  ⟨fun _ => rfl, fun _ _ => rfl, fun _ _ _ => rfl, rfl, rfl⟩

theorem Relinked.trans {m'' : Memory σ} {nodes : List Nat} (h : Relinked m m' arena nodes)
    (h' : Relinked m' m'' arena nodes) : Relinked m m'' arena nodes where
  header x := (h'.header x).trans (h.header x)
  levels x hx := (h'.levels x hx).trans (h.levels x hx)
  other x hx hnot := (h'.other x hx hnot).trans (h.other x hx hnot)
  arenas := h'.arenas.trans h.arenas
  runs := h'.runs.trans h.runs

theorem Relinked.mono {nodes nodes' : List Nat} (h : Relinked m m' arena nodes)
    (hsub : nodes ⊆ nodes') : Relinked m m' arena nodes' :=
  { h with other := fun x hx hnot => h.other x hx fun hmem => hnot (hsub hmem) }

theorem Relinked.setNext (m : Memory σ) (arena : Nat) {nodes : List Nat}
    (h : a = arena ∨ a ∈ nodes) (i : Nat) (next : Option Nat) :
    Relinked m (m.setNext a i next) arena nodes where
  header := modifyNode_field AllocList.header rfl
  levels x _ := modifyNode_field AllocList.levels rfl x
  other x hx hnot := by
    refine node_modifyNode_of_ne _ ?_
    rintro rfl
    exact h.elim hx hnot
  arenas := rfl
  runs := rfl

theorem Relinked.setLevels (m : Memory σ) (arena : Nat) (nodes : List Nat) (levels : Nat) :
    Relinked m (m.setLevels arena levels) arena nodes where
  header := modifyNode_field AllocList.header rfl
  levels x hx := by rw [Memory.setLevels, node_modifyNode_of_ne _ hx]
  other x hx _ := node_modifyNode_of_ne _ hx
  arenas := rfl
  runs := rfl

theorem next_setNext (next : Option Nat) : ((m.setNext a i next).node x).next j =
    if x = a ∧ j = i then next else (m.node x).next j := by
  unfold setNext
  by_cases hx : x = a
  · subst hx
    rw [node_modifyNode_self]
    simp [Function.update_apply]
  · rw [node_modifyNode_of_ne _ hx, if_neg fun h => hx h.1]

theorem next_setLevels (levels : Nat) (x : Nat) :
    ((m.setLevels a levels).node x).next = (m.node x).next :=
  modifyNode_field AllocList.next rfl x

/-! ## Links of one element -/

theorem Relinked.link {nodes : List Nat} (he : e ∈ nodes) {prev : List Nat}
    (hprev : ∀ p ∈ prev, p = arena ∨ p ∈ nodes) (m : Memory σ) (i : Nat) :
    Relinked m (m.link e i prev) arena nodes := by
  induction prev generalizing m i with
  | nil => exact .refl m arena nodes
  | cons p prev ih =>
    have hp := hprev p List.mem_cons_self
    have hlink := Relinked.setNext m arena (Or.inr he) i ((m.node p).next i)
    have hredirect := Relinked.setNext (m.setNext e i ((m.node p).next i)) arena hp i (some e)
    have hrest := ih (fun q hq => hprev q (List.mem_cons_of_mem _ hq))
      ((m.setNext e i ((m.node p).next i)).setNext p i (some e)) (i + 1)
    exact (hlink.trans hredirect).trans hrest

/-- On the levels from `i` on `e` stands behind the elements of `prev`. -/
theorem link_next {prev : List Nat} (he : e ∉ prev) (m : Memory σ) (i : Nat) :
    (∀ k p, prev[k]? = some p →
      ((m.link e i prev).node e).next (i + k) = (m.node p).next (i + k) ∧
      ((m.link e i prev).node p).next (i + k) = some e) ∧
    ∀ j x, (∀ k p, prev[k]? = some p → x = e ∨ x = p → j ≠ i + k) →
      ((m.link e i prev).node x).next j = (m.node x).next j := by
  induction prev generalizing m i with
  | nil => exact ⟨nofun, fun _ _ _ => rfl⟩
  | cons p prev ih =>
    obtain ⟨hep, he⟩ := not_or.mp fun h => he (List.mem_cons.mpr h)
    set m₁ := (m.setNext e i ((m.node p).next i)).setNext p i (some e)
    obtain ⟨hlink, hkept⟩ := ih he m₁ (i + 1)
    have hfirst : ∀ x j, (m₁.node x).next j =
        if x = p ∧ j = i then some e else if x = e ∧ j = i then (m.node p).next i
        else (m.node x).next j := by
      intro x j
      rw [next_setNext, next_setNext]
    have hlow : ∀ x, (((m₁.link e (i + 1) prev)).node x).next i = (m₁.node x).next i := by
      intro x
      refine hkept i x fun k q _ _ => ?_
      omega
    refine ⟨fun k q hq => ?_, fun j x hx => ?_⟩
    · cases k with
      | zero =>
        obtain rfl : p = q := Option.some.inj hq
        change ((m₁.link e (i + 1) prev).node e).next i = _ ∧
          ((m₁.link e (i + 1) prev).node p).next i = _
        rw [hlow, hlow, hfirst, hfirst]
        simp [hep]
      | succ k =>
        obtain ⟨hnext, hredirect⟩ := hlink k q hq
        have hne : i + 1 + k ≠ i := by omega
        rw [hfirst, if_neg fun h => hne h.2, if_neg fun h => hne h.2] at hnext
        rw [Nat.add_right_comm] at hnext hredirect
        exact ⟨hnext, hredirect⟩
    · change ((m₁.link e (i + 1) prev).node x).next j = _
      rw [hkept j x fun k q hq hxq => ?_, hfirst, if_neg ?_, if_neg ?_]
      · rintro ⟨rfl, rfl⟩
        exact hx 0 p rfl (Or.inl rfl) rfl
      · rintro ⟨rfl, rfl⟩
        exact hx 0 x rfl (Or.inr rfl) rfl
      · have := hx (k + 1) q hq hxq
        omega

theorem Relinked.unlink {nodes prev : List Nat} (hprev : ∀ p ∈ prev, p = arena ∨ p ∈ nodes)
    (m : Memory σ) (i : Nat) : Relinked m (m.unlink e i prev) arena nodes := by
  induction prev generalizing m i with
  | nil => exact .refl m arena nodes
  | cons p prev ih =>
    unfold Memory.unlink
    split_ifs
    · have hredirect :=
        Relinked.setNext m arena (hprev p List.mem_cons_self) i ((m.node e).next i)
      exact hredirect.trans (ih (fun q hq => hprev q (List.mem_cons_of_mem _ hq)) _ (i + 1))
    · exact .refl m arena nodes

/-- If `e` stands behind the elements of `prev`, it is taken out. -/
theorem unlink_next {prev : List Nat} (he : e ∉ prev) (m : Memory σ) (i : Nat)
    (hbehind : ∀ k p, prev[k]? = some p → (m.node p).next (i + k) = some e) :
    (∀ k p, prev[k]? = some p →
      ((m.unlink e i prev).node p).next (i + k) = (m.node e).next (i + k)) ∧
    ∀ j x, (∀ k, prev[k]? = some x → j ≠ i + k) →
      ((m.unlink e i prev).node x).next j = (m.node x).next j := by
  induction prev generalizing m i with
  | nil => exact ⟨nofun, fun _ _ _ => rfl⟩
  | cons p prev ih =>
    obtain ⟨hep, he⟩ := not_or.mp fun h => he (List.mem_cons.mpr h)
    set m₁ := m.setNext p i ((m.node e).next i)
    have hunlink : m.unlink e i (p :: prev) = m₁.unlink e (i + 1) prev :=
      if_pos (hbehind 0 p rfl)
    have hfirst : ∀ x j, (m₁.node x).next j =
        if x = p ∧ j = i then (m.node e).next i else (m.node x).next j := by
      intro x j
      rw [next_setNext]
    obtain ⟨hredirect, hkept⟩ := ih he m₁ (i + 1) fun k q hq => by
      have hne : i + 1 + k ≠ i := by omega
      rw [hfirst, if_neg fun h => hne h.2, Nat.add_right_comm]
      exact hbehind (k + 1) q hq
    rw [hunlink]
    refine ⟨fun k q hq => ?_, fun j x hx => ?_⟩
    · cases k with
      | zero =>
        obtain rfl : p = q := Option.some.inj hq
        change ((m₁.unlink e (i + 1) prev).node p).next i = _
        rw [hkept i p fun k _ => by omega, hfirst, if_pos ⟨rfl, rfl⟩]
        rfl
      | succ k =>
        have hnext := hredirect k q hq
        have hne : i + 1 + k ≠ i := by omega
        rw [hfirst, if_neg fun h => hne h.2, Nat.add_right_comm] at hnext
        exact hnext
    · rw [hkept j x fun k hk => ?_, hfirst, if_neg ?_]
      · rintro ⟨rfl, rfl⟩
        exact hx 0 rfl rfl
      · have := hx (k + 1) hk
        omega

theorem levels_setNext (next : Option Nat) (x : Nat) :
    ((m.setNext a i next).node x).levels = (m.node x).levels :=
  modifyNode_field AllocList.levels rfl x

theorem levels_link (m : Memory σ) (i : Nat) (prev : List Nat) (x : Nat) :
    ((m.link e i prev).node x).levels = (m.node x).levels := by
  induction prev generalizing m i with
  | nil => rfl
  | cons p prev ih => rw [Memory.link, ih, levels_setNext, levels_setNext]

theorem levels_unlink (m : Memory σ) (i : Nat) (prev : List Nat) (x : Nat) :
    ((m.unlink e i prev).node x).levels = (m.node x).levels := by
  induction prev generalizing m i with
  | nil => rfl
  | cons p prev ih =>
    unfold Memory.unlink
    split_ifs
    · rw [ih, levels_setNext]
    · rfl

/-! ## The free list -/

/-- A skip list whose nodes are on level 0 at least and as high as the head at most. -/
structure FreeList (m : Memory σ) (arena : Nat) (nodes : List Nat) : Prop where
  skip : SkipList (fun x i => (m.node x).next i) (fun x => (m.node x).levels) arena nodes
  levels_pos : ∀ x ∈ nodes, 0 < (m.node x).levels
  tall : ∀ x ∈ nodes, (m.node x).levels ≤ (m.node arena).levels

/-- The predecessor on a level, where `pre` are the smaller nodes. -/
def pred (m : Memory σ) (arena : Nat) (pre : List Nat) (i : Nat) : Nat :=
  SkipList.pred (fun x => (m.node x).levels) arena pre i

/-- The predecessors on the levels below `levels`. -/
def preds (m : Memory σ) (arena : Nat) (pre : List Nat) (levels : Nat) : List Nat :=
  (List.range levels).map (m.pred arena pre)

variable {nodes pre post rest : List Nat} {levels height : Nat}

theorem getElem?_preds :
    (m.preds arena pre levels)[i]? = some p ↔ i < levels ∧ m.pred arena pre i = p := by
  rw [preds, List.getElem?_map, Option.map_eq_some_iff]
  grind [List.getElem?_range]

theorem take_preds (h : levels ≤ height) :
    (m.preds arena pre height).take levels = m.preds arena pre levels := by
  rw [preds, ← List.map_take, List.take_range, Nat.min_eq_left h, preds]

theorem mem_preds (h : p ∈ m.preds arena pre levels) : p = arena ∨ p ∈ pre := by
  obtain ⟨k, -, rfl⟩ := List.mem_map.mp h
  exact (SkipList.pred_mem k).imp_right And.left

theorem notMem_preds (hne : e ≠ arena) (hpre : ∀ x ∈ pre, x < e) :
    e ∉ m.preds arena pre levels := by
  intro hmem
  obtain heq | hmem := mem_preds hmem
  · exact hne heq
  · exact Nat.lt_irrefl e (hpre e hmem)

theorem preds_setLevels (h : arena ∉ pre) :
    (m.setLevels arena height).preds arena pre levels = m.preds arena pre levels := by
  refine List.map_congr_left fun i _ => congrArg (lastOr arena) (List.filter_congr fun x hx => ?_)
  have hx : (m.setLevels arena height).node x = m.node x := by
    refine node_modifyNode_of_ne _ ?_
    rintro rfl
    exact h hx
  simp only [hx]

theorem FreeList.congr (h : FreeList m arena nodes)
    (hnodes : ∀ x ∈ nodes, (m'.node x).levels = (m.node x).levels ∧
      (m'.node x).next = (m.node x).next)
    (hlevels : (m'.node arena).levels = (m.node arena).levels)
    (hnext : (m'.node arena).next = (m.node arena).next) : FreeList m' arena nodes where
  skip := by
    refine h.skip.congr ?_ fun x hx => (hnodes x hx).1
    rintro x (rfl | hx) i
    · exact congrFun hnext i
    · exact congrFun (hnodes x hx).2 i
  levels_pos x hx := (hnodes x hx).1 ▸ h.levels_pos x hx
  tall x hx := by
    rw [(hnodes x hx).1, hlevels]
    exact h.tall x hx

/-- Level 0 has all the nodes. -/
theorem FreeList.chain_zero (h : FreeList m arena nodes) :
    Chain (fun x => (m.node x).next 0) ((m.node arena).next 0) nodes := by
  have hchain := h.skip.chain 0
  rwa [List.filter_eq_self.mpr fun x hx => by simpa using h.levels_pos x hx] at hchain

theorem length_le_of_lt {l : List Nat} (hsorted : l.Pairwise (· < ·)) (hl : ∀ x ∈ l, x < e) :
    l.length ≤ e := by
  have hnodup : l.Nodup := hsorted.imp fun hlt => Nat.ne_of_lt hlt
  have hsub : l ⊆ List.range e := fun x hx => List.mem_range.mpr (hl x hx)
  exact List.length_range (n := e) ▸ (List.subperm_of_subset hnodup hsub).length_le

/-- The loop passes the smaller nodes. -/
theorem walk_eq {u v : List Nat} {fuel : Nat}
    (h : Chain (fun x => (m.node x).next i) ((m.node p).next i) (u ++ v)) (hu : ∀ x ∈ u, x < e)
    (hv : ∀ x ∈ v, ¬ x < e) (hfuel : u.length < fuel) : m.walk i e fuel p = some (lastOr p u) := by
  induction u generalizing p fuel with
  | nil =>
    obtain ⟨fuel, rfl⟩ := Nat.exists_eq_succ_of_ne_zero (Nat.ne_of_gt hfuel)
    rw [Memory.walk]
    cases v with
    | nil => rw [show (m.node p).next i = none from h]; rfl
    | cons n v =>
      rw [show (m.node p).next i = some n from h.1]
      exact if_neg (hv n List.mem_cons_self)
  | cons c u ih =>
    obtain ⟨fuel, rfl⟩ := Nat.exists_eq_succ_of_ne_zero (Nat.ne_zero_of_lt hfuel)
    obtain ⟨hc, hu⟩ := List.forall_mem_cons.mp hu
    rw [Memory.walk, show (m.node p).next i = some c from h.1]
    refine (if_pos hc).trans ?_
    exact ih h.2 hu (Nat.lt_of_succ_lt_succ hfuel)

/-- What lies between a smaller node of a level, or the head, and the place of `e` there. -/
theorem FreeList.chain_from (h : FreeList m arena (pre ++ rest))
    (hp : p = arena ∨ p ∈ pre ∧ i < (m.node p).levels) : ∃ c,
    Chain (fun x => (m.node x).next i) ((m.node p).next i)
      (c ++ rest.filter fun x => i < (m.node x).levels) ∧
      c.Sublist pre ∧ lastOr p c = m.pred arena pre i := by
  have hchain := h.skip.chain i
  rw [List.filter_append] at hchain
  obtain rfl | ⟨hmem, hlt⟩ := hp
  · exact ⟨_, hchain, List.filter_sublist, rfl⟩
  · obtain ⟨u, v, rfl⟩ := List.append_of_mem hmem
    let linked : Nat → Bool := fun x => i < (m.node x).levels
    have hsplit : (u ++ p :: v).filter linked = u.filter linked ++ [p] ++ v.filter linked := by
      simp [linked, List.filter_append, hlt]
    rw [hsplit, List.append_assoc] at hchain
    refine ⟨v.filter linked, ?_, ?_, ?_⟩
    · have hrest := hchain.of_append
      rwa [lastOr_append] at hrest
    · exact List.filter_sublist.trans ((List.sublist_cons_self p v).trans
        (List.sublist_append_right u (p :: v)))
    · rw [pred, SkipList.pred, hsplit, lastOr_append, lastOr_append]
      rfl

theorem FreeList.searchFrom (h : FreeList m arena (pre ++ rest)) (hpre : ∀ x ∈ pre, x < e)
    (hrest : ∀ x ∈ rest, ¬ x < e) (level : Nat)
    (hp : p = arena ∨ p ∈ pre ∧ level ≤ (m.node p).levels) :
    m.searchFrom e level p = some (m.preds arena pre level) := by
  induction level generalizing p with
  | zero => rfl
  | succ level ih =>
    obtain ⟨c, hchain, hsub, hlast⟩ := h.chain_from (i := level) hp
    have hsmall : ∀ x ∈ c, x < e := fun x hx => hpre x (hsub.subset hx)
    have hsorted := (List.pairwise_append.mp h.skip.sorted).1.sublist hsub
    have hwalk := walk_eq hchain hsmall (fun x hx => hrest x (List.mem_of_mem_filter hx))
      (Nat.lt_succ_of_le (length_le_of_lt hsorted hsmall))
    have hnext : m.pred arena pre level = arena ∨ m.pred arena pre level ∈ pre ∧
        level ≤ (m.node (m.pred arena pre level)).levels :=
      (pred_mem level).imp_right fun h => ⟨h.1, Nat.le_of_lt h.2⟩
    simp only [Memory.searchFrom, hwalk, hlast, ih hnext, Option.bind_eq_bind, Option.bind_some,
      preds, List.range_succ, List.map_append, List.map_cons, List.map_nil]
    rfl

/-- The last predecessor is the last of the smaller nodes. -/
theorem FreeList.pred_zero (h : FreeList m arena (pre ++ rest)) :
    m.pred arena pre 0 = lastOr arena pre := by
  rw [pred, SkipList.pred, List.filter_eq_self.mpr fun x hx => by
    simpa using h.levels_pos x (List.mem_append_left _ hx)]

/-- The search finds the first node that is not smaller, and its predecessors. -/
theorem FreeList.search (h : FreeList m arena (pre ++ rest)) (hpre : ∀ x ∈ pre, x < e)
    (hrest : ∀ x ∈ rest, ¬ x < e) : m.search arena e =
      some (rest.head?, m.preds arena pre (m.node arena).levels) := by
  rw [Memory.search, h.searchFrom hpre hrest _ (Or.inl rfl)]
  cases hlevels : (m.node arena).levels with
  | zero =>
    have hempty : rest = [] := by
      refine List.eq_nil_iff_forall_not_mem.mpr fun x hx => ?_
      have hle := h.tall x (List.mem_append_right _ hx)
      have hpos := h.levels_pos x (List.mem_append_right _ hx)
      omega
    rw [hempty]
    rfl
  | succ levels =>
    have hfound : (m.node (m.pred arena pre 0)).next 0 = rest.head? := by
      rw [h.pred_zero]
      exact h.chain_zero.of_append.eq_head?
    simp only [Option.bind_eq_bind, Option.bind_some, preds, List.range_succ_eq_map, List.map_cons,
      hfound]
    rfl

/-- Above the levels of the head the predecessor is the head. -/
theorem FreeList.preds_extended (h : FreeList m arena (pre ++ rest)) (levels : Nat) :
    m.preds arena pre (m.node arena).levels ++
        List.replicate (levels - (m.node arena).levels) arena =
      m.preds arena pre (max (m.node arena).levels levels) := by
  have hmax : max (m.node arena).levels levels =
      (m.node arena).levels + (levels - (m.node arena).levels) := by omega
  rw [hmax, preds, preds, List.range_add, List.map_append, List.map_map]
  congr 1
  symm
  refine List.eq_replicate_iff.mpr ⟨by simp, fun x hx => ?_⟩
  obtain ⟨k, -, rfl⟩ := List.mem_map.mp hx
  refine SkipList.pred_of_le fun x hx => ?_
  exact Nat.le_trans (h.tall x (List.mem_append_left _ hx)) (Nat.le_add_right _ _)

/-- The head gets other levels, which are enough for the nodes. -/
theorem FreeList.setLevels (h : FreeList m arena nodes)
    (hlevels : ∀ x ∈ nodes, (m.node x).levels ≤ levels) :
    FreeList (m.setLevels arena levels) arena nodes := by
  have hsame : ∀ x ∈ nodes, (m.setLevels arena levels).node x = m.node x := by
    intro x hx
    refine node_modifyNode_of_ne _ ?_
    rintro rfl
    exact h.skip.head_notMem hx
  have hhead : ((m.setLevels arena levels).node arena).levels = levels :=
    congrArg AllocList.levels (node_modifyNode_self _)
  refine ⟨?_, fun x hx => ?_, fun x hx => ?_⟩
  · refine h.skip.congr (fun x _ i => congrFun (next_setLevels levels x) i) fun x hx => ?_
    rw [hsame x hx]
  · rw [hsame x hx]
    exact h.levels_pos x hx
  · rw [hsame x hx, hhead]
    exact hlevels x hx

theorem mem_middle (h : x ∈ pre ++ e :: post) : x = e ∨ x ∈ pre ++ post := by
  simp only [List.mem_append, List.mem_cons] at h ⊢
  tauto

theorem mem_middle_of_mem (h : x ∈ pre ++ post) : x ∈ pre ++ e :: post := by
  simp only [List.mem_append, List.mem_cons] at h ⊢
  tauto

/-! ## Insertion -/

/-- A node is linked behind its predecessors. -/
theorem FreeList.link (h : FreeList m arena (pre ++ post)) (hne : e ≠ arena)
    (hpre : ∀ x ∈ pre, x < e) (hpost : ∀ x ∈ post, e < x) (hlevels : 0 < (m.node e).levels)
    (htall : (m.node e).levels ≤ (m.node arena).levels) :
    FreeList (m.link e 0 (m.preds arena pre (m.node e).levels)) arena (pre ++ e :: post) := by
  obtain ⟨hnext, hkept⟩ := link_next (notMem_preds hne hpre) m 0
  set m₁ := m.link e 0 (m.preds arena pre (m.node e).levels)
  have hsame : ∀ x, (m₁.node x).levels = (m.node x).levels := levels_link m 0 _
  refine ⟨?_, fun x hx => ?_, fun x hx => ?_⟩
  · refine h.skip.insert hne hpre hpost (fun x _ => hsame x) ?_ ?_ ?_
    · intro i hi
      rw [hsame] at hi
      have hlink := (hnext i _ (getElem?_preds.mpr ⟨hi, rfl⟩)).1
      rw [Nat.zero_add] at hlink
      exact hlink
    · intro i hi
      rw [hsame] at hi
      have hlink := (hnext i _ (getElem?_preds.mpr ⟨hi, rfl⟩)).2
      rw [Nat.zero_add] at hlink
      exact hlink
    · intro i x hx hxpred
      rw [hsame] at hxpred
      refine hkept i x ?_
      rintro k p hk hxp rfl
      obtain ⟨hlt, rfl⟩ := getElem?_preds.mp hk
      rw [Nat.zero_add] at hxpred
      exact hxpred hlt (hxp.resolve_left hx)
  · rw [hsame]
    obtain rfl | hx := mem_middle hx
    · exact hlevels
    · exact h.levels_pos x hx
  · rw [hsame, hsame]
    obtain rfl | hx := mem_middle hx
    · exact htall
    · exact h.tall x hx

/-- An insertion puts the new node in its place. -/
theorem FreeList.insert (h : FreeList m arena (pre ++ post)) (hne : e ≠ arena)
    (hpre : ∀ x ∈ pre, x < e) (hpost : ∀ x ∈ post, e < x) (hlevels : 0 < (m.node e).levels) :
    ∃ prev m', m.insert arena e = some (prev, m') ∧ prev.head? = some (lastOr arena pre) ∧
      FreeList m' arena (pre ++ e :: post) ∧ Relinked m m' arena (pre ++ e :: post) := by
  set levels := (m.node e).levels
  set height := max (m.node arena).levels levels
  set m₁ := m.setLevels arena height
  have hinsert : m.insert arena e =
      some (m.preds arena pre height, m₁.link e 0 (m.preds arena pre levels)) := by
    rw [Memory.insert, h.search hpre fun x hx => Nat.not_lt.mpr (Nat.le_of_lt (hpost x hx))]
    simp only [Option.bind_eq_bind, Option.bind_some]
    rw [h.preds_extended, take_preds (Nat.le_max_right _ _)]
    rfl
  have hraised : FreeList m₁ arena (pre ++ post) :=
    h.setLevels fun x hx => Nat.le_trans (h.tall x hx) (Nat.le_max_left _ _)
  have hown : m₁.node e = m.node e := node_modifyNode_of_ne _ hne
  have hhead : (m₁.node arena).levels = height := congrArg AllocList.levels (node_modifyNode_self _)
  have hlinked := hraised.link hne hpre hpost (hown ▸ hlevels) (by
    rw [hown, hhead]
    exact Nat.le_max_right _ _)
  rw [hown, preds_setLevels fun hmem => h.skip.head_notMem (List.mem_append_left _ hmem)] at hlinked
  refine ⟨_, _, hinsert, ?_, hlinked, (Relinked.setLevels m arena _ height).trans ?_⟩
  · have hpos : 0 < height := Nat.lt_of_lt_of_le hlevels (Nat.le_max_right _ _)
    obtain ⟨n, hn⟩ := Nat.exists_eq_succ_of_ne_zero (Nat.ne_of_gt hpos)
    rw [hn, preds, List.range_succ_eq_map, ← h.pred_zero]
    rfl
  · refine Relinked.link (by simp) (fun p hp => ?_) m₁ 0
    exact (mem_preds hp).imp_right (List.mem_append_left _)

/-! ## Deletion -/

/-- A node is taken from behind its predecessors. -/
theorem FreeList.unlink (h : FreeList m arena (pre ++ e :: post)) (hpre : ∀ x ∈ pre, x < e) :
    FreeList (m.unlink e 0 (m.preds arena pre (m.node e).levels)) arena (pre ++ post) := by
  have hne : e ≠ arena := by
    rintro rfl
    exact h.skip.head_notMem (by simp)
  have hbehind : ∀ k p, (m.preds arena pre (m.node e).levels)[k]? = some p →
      (m.node p).next (0 + k) = some e := by
    intro k p hk
    obtain ⟨hlt, rfl⟩ := getElem?_preds.mp hk
    have hchain := h.skip.chain k
    rw [List.filter_append, List.filter_cons] at hchain
    simp only [hlt, decide_true, if_true] at hchain
    rw [Nat.zero_add]
    exact hchain.of_append.1
  obtain ⟨hredirect, hkept⟩ := unlink_next (notMem_preds hne hpre) m 0 hbehind
  set m₁ := m.unlink e 0 (m.preds arena pre (m.node e).levels)
  have hsame : ∀ x, (m₁.node x).levels = (m.node x).levels := levels_unlink m 0 _
  refine ⟨?_, fun x hx => ?_, fun x hx => ?_⟩
  · refine h.skip.remove (fun x _ => hsame x) ?_ ?_
    · intro i hi
      have hnext := hredirect i _ (getElem?_preds.mpr ⟨hi, rfl⟩)
      rw [Nat.zero_add] at hnext
      exact hnext
    · intro i x hx
      refine hkept i x fun k hk => ?_
      obtain ⟨hlt, rfl⟩ := getElem?_preds.mp hk
      rintro rfl
      rw [Nat.zero_add] at hx
      exact hx hlt rfl
  · rw [hsame]
    exact h.levels_pos x (mem_middle_of_mem hx)
  · rw [hsame, hsame]
    exact h.tall x (mem_middle_of_mem hx)

/-- A level that is used stays. -/
theorem lt_usedLevels {next : Nat → Option Nat} (hi : i < levels) (hnext : next i ≠ none) :
    i < usedLevels next levels := by
  induction levels with
  | zero => cases hi
  | succ levels ih =>
    unfold usedLevels
    split_ifs with hnone
    · refine ih (Nat.lt_of_le_of_ne (Nat.le_of_lt_succ hi) ?_)
      rintro rfl
      exact hnext hnone
    · exact hi

/-- The levels of the nodes are used: a node lies on the level below its height. -/
theorem FreeList.le_usedLevels (h : FreeList m arena nodes) (hx : x ∈ nodes) :
    (m.node x).levels ≤ usedLevels (m.node arena).next (m.node arena).levels := by
  have hpos := h.levels_pos x hx
  have htall := h.tall x hx
  have hchain := h.skip.chain ((m.node x).levels - 1)
  have hin : x ∈ nodes.filter fun y => (m.node x).levels - 1 < (m.node y).levels :=
    List.mem_filter.mpr ⟨hx, decide_eq_true (Nat.sub_one_lt_of_lt hpos)⟩
  have hnext : (m.node arena).next ((m.node x).levels - 1) ≠ none := by
    rw [hchain.eq_head?]
    intro hnil
    rw [List.head?_eq_none_iff.mp hnil] at hin
    cases hin
  have hlt := lt_usedLevels (Nat.lt_of_lt_of_le (Nat.sub_one_lt_of_lt hpos) htall) hnext
  omega

/-- A deletion takes a node out. -/
theorem FreeList.delete (h : FreeList m arena (pre ++ e :: post)) (platform : Platform σ) :
    ∃ m', m.delete platform arena e = some m' ∧ FreeList m' arena (pre ++ post) ∧
      Relinked m m' arena (pre ++ e :: post) := by
  have hsorted := h.skip.sorted
  simp only [List.pairwise_append, List.pairwise_cons, List.mem_cons] at hsorted
  have hpre : ∀ x ∈ pre, x < e := fun x hx => hsorted.2.2 x hx e (Or.inl rfl)
  have hrest : ∀ x ∈ e :: post, ¬ x < e := List.forall_mem_cons.mpr
    ⟨Nat.lt_irrefl e, fun x hx => Nat.not_lt.mpr (Nat.le_of_lt (hsorted.2.1.1 x hx))⟩
  set m₁ := m.unlink e 0 (m.preds arena pre (m.node e).levels)
  set used := usedLevels (m₁.node arena).next (m₁.node arena).levels
  have hdelete : m.delete platform arena e = some (m₁.setLevels arena used) := by
    rw [Memory.delete, h.search hpre hrest]
    simp only [Option.bind_eq_bind, Option.bind_some, List.head?_cons, Platform.check,
      not_true_eq_false, and_false, if_false]
    rw [take_preds (h.tall e (by simp))]
    rfl
  have hunlinked : FreeList m₁ arena (pre ++ post) := h.unlink hpre
  refine ⟨_, hdelete, hunlinked.setLevels fun x hx => hunlinked.le_usedLevels hx, ?_⟩
  have hrelinked : Relinked m m₁ arena (pre ++ e :: post) :=
    Relinked.unlink (fun p hp => (mem_preds hp).imp_right (List.mem_append_left _)) m 0
  exact hrelinked.trans (.setLevels m₁ arena _ used)

end Memory
end CppGuard
