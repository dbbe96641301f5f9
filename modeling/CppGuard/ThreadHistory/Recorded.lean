import CppGuard.ThreadHistory
import Mathlib.Algebra.BigOperators.Group.List.Basic

/-!
# How often a lock is recorded

The counter of a lock in a history, 0 without an entry. An acquisition increments it, unless
the lock would need a new entry and there is none; a release decrements it.
-/
namespace CppGuard
open CountedList ThreadHistory

namespace SynchLocksHeld

def recorded (held : SynchLocksHeld) (id : GraphId) : Int :=
  ((held.entries.filter fun l => l.id = id).map LockT.count).sum

/-- The acquisition of a lock is recorded: it has an entry, or there is room for one. -/
def Accepts (maxLocks : Nat) (held : SynchLocksHeld) (id : GraphId) : Prop :=
  held.n < maxLocks ∨ ∃ l ∈ held.entries, l.id = id

variable {maxLocks : Nat} {held held' : SynchLocksHeld} {id : GraphId} {mu : Addr}
  {thread : ThreadId}

theorem recorded_congr (h : held'.entries = held.entries) (id : GraphId) :
    held'.recorded id = held.recorded id := by
  rw [recorded, recorded, h]

theorem recorded_withEntries (es : List LockT) (id : GraphId) :
    (held.withEntries maxLocks es).recorded id =
      ((es.filter fun l => l.id = id).map LockT.count).sum := by
  rw [recorded, entries_withEntries]

theorem recorded_split {a b : List LockT} {e : LockT} (hes : held.entries = a ++ e :: b)
    (x : GraphId) : held.recorded x =
      (((a ++ b).filter fun l => l.id = x).map LockT.count).sum +
        if e.id = x then e.count else 0 := by
  have hperm : held.entries.Perm (e :: (a ++ b)) := hes ▸ List.perm_middle
  rw [recorded, ((hperm.filter _).map _).sum_eq, List.filter_cons]
  by_cases hx : e.id = x
  · simp [hx, add_comm]
  · simp [hx]

theorem recorded_of_mem (h : held.Valid maxLocks) {l : LockT} (hl : l ∈ held.entries) :
    held.recorded l.id = l.count := by
  obtain ⟨a, b, hes⟩ := List.append_of_mem hl
  have hperm : held.entries.Perm (l :: (a ++ b)) := hes ▸ List.perm_middle
  have hnodup := (hperm.map LockT.id).nodup_iff.mp h.nodup
  have habsent : ((a ++ b).filter fun x => x.id = l.id) = [] := by
    refine List.filter_eq_nil_iff.mpr fun x hx hid => ?_
    have hmem : l.id ∈ (a ++ b).map LockT.id := of_decide_eq_true hid ▸ List.mem_map_of_mem hx
    exact (List.nodup_cons.mp hnodup).1 hmem
  rw [recorded_split hes, habsent, if_pos rfl]
  simp

/-- An acquisition increments the counter of its lock, if it is recorded at all. -/
theorem recorded_inLock (h : held.Valid maxLocks) (mu : Addr) (hid : held.Accepts maxLocks id)
    (x : GraphId) : (updateLockHistoryInLock mu id held).recorded x =
      held.recorded x + if id = x then 1 else 0 := by
  obtain absent | ⟨a, e, b, hes, rfl⟩ := entry_cases held.entries id
  · have hroom : held.n < maxLocks := hid.resolve_right fun ⟨l, hl, hlid⟩ => absent l hl hlid
    have hne : held.entries.length ≠ maxLocks := by
      rw [← h.n_eq]
      omega
    rw [inLock_absent h absent, if_neg hne, recorded_withEntries, List.filter_append,
      List.map_append, List.sum_append, ← recorded]
    by_cases hx : id = x <;> simp [hx]
  · have hentries : (updateLockHistoryInLock mu e.id held).entries =
        a ++ { e with count := e.count + 1 } :: b := by
      rw [inLock_present h hes rfl, entries_withEntries]
    rw [recorded_split hentries, recorded_split hes]
    by_cases hx : e.id = x
    · simp only [hx, if_true]
      ring
    · simp only [hx, if_false]
      ring

/-- Without room for its lock an acquisition is dropped. -/
theorem inLock_dropped (h : held.Valid maxLocks) (mu : Addr) (hid : ¬ held.Accepts maxLocks id) :
    updateLockHistoryInLock mu id held = held := by
  have absent : ∀ l ∈ held.entries, l.id ≠ id := fun l hl hlid => hid (Or.inr ⟨l, hl, hlid⟩)
  have hfull : held.entries.length = maxLocks := by
    have hle := h.le
    have hroom : ¬ held.n < maxLocks := fun hlt => hid (Or.inl hlt)
    rw [h.n_eq] at hroom
    omega
  rw [inLock_absent h absent, if_pos hfull]

theorem recorded_le_inLock (h : held.Valid maxLocks) (mu : Addr) (id x : GraphId) :
    held.recorded x ≤ (updateLockHistoryInLock mu id held).recorded x := by
  by_cases hid : held.Accepts maxLocks id
  · rw [recorded_inLock h mu hid]
    split_ifs <;> omega
  · rw [inLock_dropped h mu hid]

/-- A release decrements the counter of its lock. -/
theorem recorded_afterLock (h : held.Valid maxLocks)
    (hok : updateLockHistoryAfterLock thread mu id held = .ok held') (x : GraphId) :
    held'.recorded x = held.recorded x - if id = x then 1 else 0 := by
  obtain absent | ⟨a, e, b, hes, rfl⟩ := entry_cases held.entries id
  · rw [afterLock_absent absent] at hok
    cases hok
  · rw [recorded_split hes x]
    by_cases hcount : e.count = 1
    · obtain rfl := Except.ok.inj ((afterLock_remove h hes rfl hcount).symm.trans hok)
      have hperm := (closeGap_perm b).append_left a
      rw [recorded_withEntries, ((hperm.filter _).map _).sum_eq, hcount]
      split_ifs <;> ring
    · obtain rfl := Except.ok.inj ((afterLock_decrement h hes rfl hcount).symm.trans hok)
      rw [recorded_split (e := { e with count := e.count - 1 }) (entries_withEntries ..) x]
      by_cases hx : e.id = x
      · simp only [hx, if_true]
        ring
      · simp only [hx, if_false, sub_zero]

/-- A release returns the history before a recursive acquisition. -/
theorem afterLock_inLock (h : held.Valid maxLocks) (hid : ∃ l ∈ held.entries, l.id = id) :
    updateLockHistoryAfterLock thread mu id (updateLockHistoryInLock mu id held) = .ok held := by
  obtain absent | ⟨a, e, b, hes, rfl⟩ := entry_cases held.entries id
  · obtain ⟨l, hl, hlid⟩ := hid
    exact absurd hlid (absent l hl)
  · have hvalid := valid_inLock h mu e.id
    rw [inLock_present h hes rfl] at hvalid ⊢
    have hcount : e.count + 1 ≠ 1 := by
      have := h.count_pos e (by simp [hes])
      omega
    rw [afterLock_decrement hvalid (e := { e with count := e.count + 1 })
      (entries_withEntries ..) rfl hcount, withEntries_withEntries]
    have hback : e.count + 1 - 1 = e.count := by omega
    simp only [hback]
    rw [← hes, ← h.eq]

theorem afterLock_ok (h : held.Valid maxLocks) (hid : ∃ l ∈ held.entries, l.id = id) :
    ∃ held', updateLockHistoryAfterLock thread mu id held = .ok held' := by
  obtain absent | ⟨a, e, b, hes, rfl⟩ := entry_cases held.entries id
  · obtain ⟨l, hl, hlid⟩ := hid
    exact absurd hlid (absent l hl)
  · by_cases hcount : e.count = 1
    · exact ⟨_, afterLock_remove h hes rfl hcount⟩
    · exact ⟨_, afterLock_decrement h hes rfl hcount⟩

end SynchLocksHeld
end CppGuard
