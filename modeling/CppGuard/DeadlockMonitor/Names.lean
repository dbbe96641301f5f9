import CppGuard.DeadlockMonitor.Invariant
import CppGuard.LockOrder

/-!
# The locks that ids name

A live id names the lock that lives at its address; a retired id that is still in use names
a lock that was deleted. Ids and locks correspond one to one, so the arcs of the graph can be
read as pairs of locks (`Recorded`), which are always acyclic.
-/
namespace CppGuard
open Relation

/-- Which lock an id names. -/
structure Names (g : Rep) (generation : Addr → Nat) (names : GraphId → Incarnation → Prop) :
    Prop where
  left : Relator.LeftUnique names
  right : Relator.RightUnique names
  live : ∀ x p, g.Live x p → names x ⟨p, generation p⟩
  status : ∀ x h, names x h → (g.Live x h.addr ∧ h.generation = generation h.addr) ∨
    (g.Retired x ∧ h.generation < generation h.addr)

/-- The id is a name of the lock, too. -/
abbrev withName (names : GraphId → Incarnation → Prop) (id : GraphId) (m : Incarnation) :
    GraphId → Incarnation → Prop :=
  fun x h => names x h ∨ x = id ∧ h = m

/-- The graph has an arc between the locks, whatever it is that ids name. -/
def Recorded {κ : Type*} (g : Rep) (names : GraphId → κ → Prop) (h m : κ) : Prop :=
  ∃ x y, names x h ∧ names y m ∧ g.Arc x y

section Recorded

variable {κ : Type*} {g : Rep} {names names' : GraphId → κ → Prop} {h m : κ}
  (total : ∀ x p, g.Live x p → ∃ k, names x k)

include total in
/-- New names do not matter to the arcs that are there. -/
theorem recorded_iff (right : Relator.RightUnique names') (hmono : ∀ x k, names x k → names' x k) :
    Recorded g names' h m ↔ Recorded g names h m := by
  constructor
  · rintro ⟨x, y, hx, hy, harc⟩
    have ⟨⟨p, hp⟩, ⟨q, hq⟩, _⟩ := harc
    obtain ⟨k, hk⟩ := total x p hp
    obtain ⟨l, hl⟩ := total y q hq
    obtain rfl := right hx (hmono x k hk)
    obtain rfl := right hy (hmono y l hl)
    exact ⟨x, y, hk, hl, harc⟩
  · rintro ⟨x, y, hx, hy, harc⟩
    exact ⟨x, y, hmono _ _ hx, hmono _ _ hy, harc⟩

include total in
/-- A path of arcs, seen as a path of recorded pairs. -/
theorem recorded_path {x y : GraphId} (hx : names x h) (hpath : ReflTransGen g.Arc x y) :
    ∃ k, names y k ∧ ReflTransGen (Recorded g names) h k := by
  induction hpath with
  | refl => exact ⟨h, hx, .refl⟩
  | @tail y z _ harc ih =>
    obtain ⟨k, hk, hpath⟩ := ih
    have ⟨_, ⟨q, hq⟩, _⟩ := harc
    obtain ⟨l, hl⟩ := total z q hq
    exact ⟨l, hl, hpath.tail ⟨y, z, hk, hl, harc⟩⟩

/-- The recorded order is acyclic. -/
theorem recorded_acyclic (left : Relator.LeftUnique names) (hg : g.Clean) (h : κ) :
    ¬ TransGen (Recorded g names) h h := by
  have lift : ∀ {h m}, TransGen (Recorded g names) h m →
      ∃ x y, names x h ∧ names y m ∧ TransGen g.Arc x y := by
    intro h m hpath
    induction hpath with
    | single hrec =>
      obtain ⟨x, y, hx, hy, harc⟩ := hrec
      exact ⟨x, y, hx, hy, .single harc⟩
    | tail _ hrec ih =>
      obtain ⟨x, y, hx, hy, hxy⟩ := ih
      obtain ⟨y', z, hy', hz, harc⟩ := hrec
      obtain rfl := left hy hy'
      exact ⟨x, z, hx, hz, hxy.tail harc⟩
  intro hcycle
  obtain ⟨x, y, hx, hy, hxy⟩ := lift hcycle
  obtain rfl := left hx hy
  exact hg.acyclic x hxy

end Recorded

namespace Names
open CppGuard.Rep

variable {g g' : Rep} {generation : Addr → Nat} {names names' : GraphId → Incarnation → Prop}
  {mu : Addr} {id x : GraphId} {h m : Incarnation}

theorem eq_of_live (hn : Names g generation names) {p : Addr} (hx : g.Live x p) (hxh : names x h) :
    h = ⟨p, generation p⟩ :=
  hn.right hxh (hn.live x p hx)

theorem live_iff (hn : Names g generation names) (hg : g.Clean) (hxh : names x h) :
    (∃ p, g.Live x p) ↔ h.generation = generation h.addr := by
  obtain ⟨hlive, hgen⟩ | ⟨hretired, hlt⟩ := hn.status x h hxh
  · exact ⟨fun _ => hgen, fun _ => ⟨_, hlive⟩⟩
  · constructor
    · rintro ⟨p, hp⟩
      exact absurd hp (hretired.not_live hg.toIndexed)
    · intro hgen
      omega

/-- Registering `mu` gives its lock a name. -/
theorem register (hn : Names g generation names) (hg' : g'.Clean)
    (self : g'.Live id mu) (live : ∀ a p, g'.Live a p ↔ g.Live a p ∨ a = id ∧ p = mu)
    (retired : ∀ a, g.Retired a → g'.Retired a) :
    Names g' generation (withName names id ⟨mu, generation mu⟩) := by
  have hid : ∀ h, names id h → h = ⟨mu, generation mu⟩ := by
    intro h hname
    obtain ⟨hlive, hgen⟩ | ⟨hretired, -⟩ := hn.status id h hname
    · obtain rfl : h.addr = mu :=
        ((live id h.addr).mpr (Or.inl hlive)).addr_inj hg'.toIndexed self
      rw [← hgen]
    · exact absurd self ((retired id hretired).not_live hg'.toIndexed)
  have hcurrent : ∀ x, names x ⟨mu, generation mu⟩ → x = id := by
    intro x hname
    obtain ⟨hlive, -⟩ | ⟨-, hlt⟩ := hn.status x _ hname
    · exact ((live x mu).mpr (Or.inl hlive)).id_inj hg'.toIndexed self
    · exact absurd hlt (lt_irrefl _)
  refine ⟨?_, ?_, ?_, ?_⟩
  · rintro x y h (hx | ⟨rfl, hx⟩) (hy | ⟨rfl, hy⟩)
    · exact hn.left hx hy
    · exact hcurrent x (hy ▸ hx)
    · exact (hcurrent y (hx ▸ hy)).symm
    · rfl
  · rintro x h m (hx | ⟨rfl, rfl⟩) (hm | ⟨hm, rfl⟩)
    · exact hn.right hx hm
    · subst hm
      exact hid h hx
    · exact (hid m hm).symm
    · rfl
  · intro x p hx
    obtain hx | ⟨rfl, rfl⟩ := (live x p).mp hx
    · exact Or.inl (hn.live x p hx)
    · exact Or.inr ⟨rfl, rfl⟩
  · rintro x h (hx | ⟨rfl, rfl⟩)
    · obtain ⟨hlive, hgen⟩ | ⟨hretired, hlt⟩ := hn.status x h hx
      · exact Or.inl ⟨(live x _).mpr (Or.inl hlive), hgen⟩
      · exact Or.inr ⟨retired x hretired, hlt⟩
    · exact Or.inl ⟨self, rfl⟩

/-- A deletion ends the lock, and the name of its id is that of a deleted lock. -/
theorem remove (hn : Names g generation names) (hremoved : RemovedAddr mu g g') :
    Names g' (Function.update generation mu (generation mu + 1)) names := by
  refine ⟨hn.left, hn.right, fun x p hx => ?_, fun x h hxh => ?_⟩
  · obtain ⟨hlive, hp⟩ := (hremoved.live x p).mp hx
    rw [Function.update_of_ne hp]
    exact hn.live x p hlive
  · by_cases haddr : h.addr = mu
    · rw [haddr, Function.update_self]
      obtain ⟨hlive, hgen⟩ | ⟨hretired, hlt⟩ := hn.status x h hxh
      · rw [haddr] at hlive hgen
        exact Or.inr ⟨hremoved.retired_self x hlive, by omega⟩
      · rw [haddr] at hlt
        exact Or.inr ⟨hremoved.retired x hretired, by omega⟩
    · rw [Function.update_of_ne haddr]
      obtain ⟨hlive, hgen⟩ | ⟨hretired, hlt⟩ := hn.status x h hxh
      · exact Or.inl ⟨(hremoved.live x _).mpr ⟨hlive, haddr⟩, hgen⟩
      · exact Or.inr ⟨hremoved.retired x hretired, hlt⟩

theorem total (hn : Names g generation names) (x : GraphId) (p : Addr) (hx : g.Live x p) :
    ∃ k, names x k :=
  ⟨_, hn.live x p hx⟩

end Names
end CppGuard
