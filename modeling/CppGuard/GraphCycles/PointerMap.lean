import CppGuard.GraphCycles.Invariant

/-!
# Correctness of `PointerMap::Add` and `PointerMap::Remove`

Both change links only (`SameButLinks`), and keep every bucket a chain of the nodes
registered under it. `Remove` runs before the pointer of the node is cleared, so the
registered pointers are a parameter of `Hashed`.
-/
namespace CppGuard
open LinkedChain

/-- What the hash chains leave alone of a node. -/
def Node.unlinked (n : Node) : Node := { n with nextHash := none }

namespace Rep

structure SameButLinks (r r' : Rep) : Prop where
  size : r'.size = r.size
  freeNodes : r'.freeNodes = r.freeNodes
  unlinked : ∀ i, (r'.node i).unlinked = (r.node i).unlinked

namespace SameButLinks

variable {r r' r'' : Rep}

theorem trans (h : SameButLinks r r') (h' : SameButLinks r' r'') : SameButLinks r r'' :=
  ⟨h'.size.trans h.size, h'.freeNodes.trans h.freeNodes,
    fun i => (h'.unlinked i).trans (h.unlinked i)⟩

theorem field {α : Type*} (h : SameButLinks r r') (g : Node → α) (hg : ∀ n, g n.unlinked = g n)
    (i : Nat) : g (r'.node i) = g (r.node i) := by
  rw [← hg, h.unlinked, hg]

theorem maskedPtr (h : SameButLinks r r') (i : Nat) :
    (r'.node i).maskedPtr = (r.node i).maskedPtr := h.field Node.maskedPtr (fun _ => rfl) i

theorem modify (r : Rep) (i : Nat) (o : Option Nat) :
    SameButLinks r (r.modify i fun n => { n with nextHash := o }) :=
  ⟨size_modify .., rfl, modify_field Node.unlinked (by exact fun _ => rfl) r i⟩

theorem writeLink (r : Rep) (l : Link) (o : Option Nat) : SameButLinks r (r.writeLink l o) := by
  cases l with
  | head b => exact ⟨rfl, rfl, fun _ => rfl⟩
  | after j => exact modify r j o

end SameButLinks

theorem hashed_add {r : Rep} {reg : Nat → Option Addr} (h : r.Hashed reg) {i : Nat}
    (hi : i < r.size) (fresh : reg i = none) (p : Addr) :
    (r.add p i).Hashed (Function.update reg i (some p)) := by
  intro b
  obtain ⟨l, hl, hmem⟩ := h b
  have hnext : ∀ j, ((r.add p i).node j).nextHash =
      if j = i then r.ptrmap (ptrHash p) else (r.node j).nextHash := by
    intro j
    refine (congrArg Node.nextHash (node_modify _ hi j)).trans ?_
    split_ifs <;> rfl
  have hmap : (r.add p i).ptrmap = Function.update r.ptrmap (ptrHash p) (some i) := rfl
  have hil : i ∉ l := fun hil => by
    obtain ⟨q, hq, _⟩ := (hmem i).mp hil
    rw [fresh] at hq
    cases hq
  have same : ∀ j ∈ l, ((r.add p i).node j).nextHash = (r.node j).nextHash := by
    intro j hj
    rw [hnext, if_neg fun hji => hil (by rwa [hji] at hj)]
  by_cases hb : b = ptrHash p
  · subst hb
    refine ⟨i :: l, ?_, fun j => ?_⟩
    · rw [hmap, Function.update_self]
      exact hl.push ((hnext i).trans (if_pos rfl)) same
    · by_cases hji : j = i
      · simp [hji]
      · simp [hji, hmem]
  · refine ⟨l, ?_, fun j => ?_⟩
    · rw [hmap, Function.update_of_ne hb]
      exact hl.congr same
    · by_cases hji : j = i
      · subst hji
        simp [hil, Ne.symm hb]
      · simp [hji, hmem]

theorem sameButLinks_add (r : Rep) (p : Addr) (i : Nat) : SameButLinks r (r.add p i) :=
  (SameButLinks.modify r i _).trans ⟨rfl, rfl, fun _ => rfl⟩

/-! ## Removal -/

/-- The link that points behind `a`, for a chain that starts with `slot`. -/
def Link.last (slot : Link) : List Nat → Link
  | [] => slot
  | j :: a => Link.last (.after j) a

theorem Link.last_append (slot : Link) (a : List Nat) (q : Nat) :
    slot.last (a ++ [q]) = .after q := by
  induction a generalizing slot with
  | nil => rfl
  | cons j a ih => exact ih (.after j)

/-- `r` with the node `i` behind `a` taken out of the chain. -/
def unlink (r : Rep) (slot : Link) (a : List Nat) (i : Nat) : Rep :=
  (r.writeLink (slot.last a) (r.node i).nextHash).modify i fun n => { n with nextHash := none }

theorem removeFrom_of_chain {r : Rep} {p : Addr} {i : Nat} {a c : List Nat} (slot : Link)
    (h : Chain (fun i => (r.node i).nextHash) (r.readLink slot) (a ++ i :: c))
    (hi : (r.node i).maskedPtr = some p) (ha : ∀ j ∈ a, (r.node j).maskedPtr ≠ some p)
    {fuel : Nat} (hfuel : a.length < fuel) :
    r.removeFrom p fuel slot = some (some i, r.unlink slot a i) := by
  induction a generalizing slot fuel with
  | nil =>
    obtain ⟨fuel, rfl⟩ : ∃ k, fuel = k + 1 := ⟨fuel - 1, by omega⟩
    rw [removeFrom, h.1]
    simp [hi, unlink, Link.last]
  | cons j a ih =>
    obtain ⟨fuel, rfl⟩ : ∃ k, fuel = k + 1 := ⟨fuel - 1, by omega⟩
    rw [removeFrom, h.1]
    simp only [if_neg (ha j (by simp))]
    exact ih (.after j) h.2 (fun k hk => ha k (by simp [hk])) (by simpa using hfuel)

theorem removeFrom_absent {r : Rep} {p : Addr} {l : List Nat} (slot : Link)
    (h : Chain (fun i => (r.node i).nextHash) (r.readLink slot) l)
    (hl : ∀ j ∈ l, (r.node j).maskedPtr ≠ some p) {fuel : Nat} (hfuel : l.length ≤ fuel) :
    r.removeFrom p fuel slot = some (none, r) := by
  induction l generalizing slot fuel with
  | nil =>
    have h : r.readLink slot = none := h
    rw [removeFrom, h]
  | cons j l ih =>
    obtain ⟨fuel, rfl⟩ : ∃ k, fuel = k + 1 := ⟨fuel - 1, by simp at hfuel; omega⟩
    rw [removeFrom, h.1]
    simp only [if_neg (hl j (by simp))]
    exact ih (.after j) h.2 (fun k hk => hl k (by simp [hk])) (by simpa using hfuel)

/-- The links after `unlink`: only those of `i` and of the cell before it change. -/
theorem unlink_head (r : Rep) (b i : Nat) :
    (r.unlink (.head b) [] i).ptrmap = Function.update r.ptrmap b (r.node i).nextHash ∧
      ∀ j, j ≠ i → ((r.unlink (.head b) [] i).node j).nextHash = (r.node j).nextHash :=
  ⟨rfl, fun _ hj => congrArg Node.nextHash (node_modify_of_ne _ hj)⟩

theorem unlink_after {r : Rep} (slot : Link) (a : List Nat) {q i : Nat} (hq : q < r.size)
    (hqi : q ≠ i) :
    (r.unlink slot (a ++ [q]) i).ptrmap = r.ptrmap ∧
      ((r.unlink slot (a ++ [q]) i).node q).nextHash = (r.node i).nextHash ∧
      ∀ j, j ≠ i → j ≠ q →
        ((r.unlink slot (a ++ [q]) i).node j).nextHash = (r.node j).nextHash := by
  rw [unlink, Link.last_append]
  refine ⟨rfl, ?_, fun j hj hjq => ?_⟩
  · rw [node_modify_of_ne _ hqi]
    have hwrite : r.writeLink (.after q) (r.node i).nextHash =
        r.modify q fun n => { n with nextHash := (r.node i).nextHash } := rfl
    rw [hwrite, node_modify_self _ hq]
  · rw [node_modify_of_ne _ hj]
    exact congrArg Node.nextHash (node_modify_of_ne _ hjq)

theorem sameButLinks_unlink (r : Rep) (slot : Link) (a : List Nat) (i : Nat) :
    SameButLinks r (r.unlink slot a i) :=
  (SameButLinks.writeLink r _ _).trans (SameButLinks.modify _ i none)

theorem remove_absent {r : Rep} (hr : r.Indexed) {p : Addr}
    (absent : ∀ i, (r.node i).maskedPtr ≠ some p) : r.remove p = some (none, r) := by
  obtain ⟨l, hl, hmem⟩ := hr.chains (ptrHash p)
  exact removeFrom_absent (.head (ptrHash p)) hl (fun j _ => absent j)
    (chain_length_le hl hmem)

/-- The bucket of a node loses it. -/
theorem unlink_own {r : Rep} {b i : Nat} {a c : List Nat}
    (h : Chain (fun j => (r.node j).nextHash) (r.ptrmap b) (a ++ i :: c))
    (hlt : ∀ j ∈ a, j < r.size) :
    Chain (fun j => ((r.unlink (.head b) a i).node j).nextHash)
      ((r.unlink (.head b) a i).ptrmap b) (a ++ c) := by
  have nodup := h.nodup
  have hc : i ∉ c := (List.nodup_cons.mp nodup.of_append_right).1
  rcases List.eq_nil_or_concat' a with rfl | ⟨a', q, rfl⟩
  · obtain ⟨hmap, hnext⟩ := unlink_head r b i
    rw [hmap, Function.update_self]
    exact h.head_unlink fun j hj => hnext j fun hji => hc (hji ▸ hj)
  · have hi : i ∉ a' ++ [q] := fun hi => (List.disjoint_of_nodup_append nodup) hi (by simp)
    have hqi : q ≠ i := fun heq => hi (by simp [heq])
    obtain ⟨hmap, hnextq, hnext⟩ := unlink_after (.head b) a' (hlt q (by simp)) hqi
    rw [hmap, List.append_assoc]
    rw [List.append_assoc] at h nodup
    refine h.unlink hnextq fun j hj => hnext j ?_ ?_
    · rintro rfl
      rcases List.mem_append.mp hj with hj | hj
      · exact hi (List.mem_append_left _ hj)
      · exact hc hj
    · rintro rfl
      rcases List.mem_append.mp hj with hj | hj
      · exact List.disjoint_of_nodup_append nodup hj (by simp)
      · exact (List.nodup_cons.mp nodup.of_append_right).1 (by simp [hj])

/-- The other buckets stay. -/
theorem unlink_other {r : Rep} {b b' i : Nat} {a l : List Nat} (hb : b' ≠ b)
    (h : Chain (fun j => (r.node j).nextHash) (r.ptrmap b') l) (hlt : ∀ j ∈ a, j < r.size)
    (hi : i ∉ a) (hout : ∀ j ∈ l, j ≠ i ∧ j ∉ a) :
    Chain (fun j => ((r.unlink (.head b) a i).node j).nextHash)
      ((r.unlink (.head b) a i).ptrmap b') l := by
  rcases List.eq_nil_or_concat' a with rfl | ⟨a', q, rfl⟩
  · obtain ⟨hmap, hnext⟩ := unlink_head r b i
    rw [hmap, Function.update_of_ne hb]
    exact h.congr fun j hj => hnext j (hout j hj).1
  · have hqi : q ≠ i := fun heq => hi (by simp [heq])
    obtain ⟨hmap, -, hnext⟩ := unlink_after (.head b) a' (hlt q (by simp)) hqi
    rw [hmap]
    exact h.congr fun j hj => hnext j (hout j hj).1 fun hjq => (hout j hj).2 (by simp [hjq])

/-- `Remove` finds the node of a registered pointer and takes it out of its bucket. -/
theorem remove_present {r : Rep} (hr : r.Indexed) {p : Addr} {i : Nat}
    (hi : (r.node i).maskedPtr = some p) :
    ∃ r', r.remove p = some (some i, r') ∧ SameButLinks r r' ∧
      r'.Hashed (Function.update (fun j => (r.node j).maskedPtr) i none) := by
  obtain ⟨l, hl, hmem⟩ := hr.chains (ptrHash p)
  obtain ⟨a, c, rfl⟩ := List.append_of_mem ((hmem i).mpr ⟨p, hi, rfl⟩)
  have hlen := chain_length_le hl hmem
  have ha : i ∉ a := fun hj => (List.disjoint_of_nodup_append hl.nodup) hj (by simp)
  have hc : i ∉ c := (List.nodup_cons.mp hl.nodup.of_append_right).1
  have hlt : ∀ j ∈ a, j < r.size := by
    intro j hj
    obtain ⟨q, hq, -⟩ := (hmem j).mp (List.mem_append_left _ hj)
    exact lt_size_of_maskedPtr hq
  refine ⟨r.unlink (.head (ptrHash p)) a i, ?_, sameButLinks_unlink .., fun b => ?_⟩
  · refine removeFrom_of_chain (.head (ptrHash p)) hl hi
      (fun j hj hjp => ha (hr.ptr_inj j i p hjp hi ▸ hj)) ?_
    rw [List.length_append, List.length_cons] at hlen
    omega
  by_cases hb : b = ptrHash p
  · subst hb
    refine ⟨a ++ c, unlink_own hl hlt, fun j => ?_⟩
    by_cases hji : j = i
    · subst hji
      simp [ha, hc]
    · rw [Function.update_of_ne hji]
      have := hmem j
      simpa [hji] using this
  · obtain ⟨l, hl', hmem'⟩ := hr.chains b
    have hout : ∀ j ∈ l, j ∉ a ++ i :: c := by
      intro j hj hja
      obtain ⟨q, hq, rfl⟩ := (hmem' j).mp hj
      obtain ⟨q', hq', heq⟩ := (hmem j).mp hja
      obtain rfl := Option.some.inj (hq.symm.trans hq')
      exact hb heq
    refine ⟨l, unlink_other hb hl' hlt ha fun j hj => ⟨?_, ?_⟩, fun j => ?_⟩
    · rintro rfl
      exact hout j hj (by simp)
    · exact fun hja => hout j hj (List.mem_append_left _ hja)
    · by_cases hji : j = i
      · subst hji
        have : j ∉ l := fun hj => hout j hj (by simp)
        simp [this]
      · rw [Function.update_of_ne hji]
        exact hmem' j

end Rep
end CppGuard
