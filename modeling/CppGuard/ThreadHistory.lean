import CppGuard.Library.CountedList
import CppGuard.LogHelper

/-!
# The history of held locks

`thread_history_helper`: a successful acquisition adds an entry to `locks[]` or increments
one, a release decrements an entry or moves the last one into its place. The entries are
looked up by graph id.
-/
namespace CppGuard

namespace ThreadHistory

/-- `update_lock_history_in_lock`; without room for the lock nothing happens. -/
def updateLockHistoryInLock (mu : Addr) (id : GraphId) (heldLocks : SynchLocksHeld) :
    SynchLocksHeld :=
  match heldLocks.entries.findIdx? (fun l => l.id = id) with
  | none =>
    if heldLocks.n = heldLocks.locks.length then heldLocks
    else
      { heldLocks with
        locks := heldLocks.locks.set heldLocks.n ⟨some mu, 1, id⟩
        n := heldLocks.n + 1 }
  | some i =>
    { heldLocks with locks := heldLocks.locks.modify i fun l => { l with count := l.count + 1 } }

/-- `update_lock_history_after_lock`; an error is the report that is passed to
`process_error` before the function returns false. -/
def updateLockHistoryAfterLock (thread : ThreadId) (mu : Addr) (id : GraphId)
    (heldLocks : SynchLocksHeld) : Except Report SynchLocksHeld :=
  let n := heldLocks.n
  match heldLocks.entries.findIdx? (fun l => l.id = id) with
  | none =>
    -- the id may have been reassigned, but in that case `mu` is still present
    match heldLocks.entries.findIdx? (fun l => l.mu = some mu) with
    | none => .error (.releaseLockWhichThreadDoesHold thread mu)
    | some _ => .error (.releaseLockedDeletedByOtherThread thread mu)
  | some i =>
    if (heldLocks.locks.getD i default).count = 1 then
      .ok { heldLocks with
        n := n - 1
        locks :=
          (heldLocks.locks.set i (heldLocks.locks.getD (n - 1) default)).set (n - 1) .cleared }
    else
      .ok { heldLocks with
        locks := heldLocks.locks.modify i fun l => { l with count := l.count - 1 } }

end ThreadHistory

/-! ## Well-formed histories -/

namespace SynchLocksHeld

/-- The history with the entries `es` and every other slot cleared. -/
def withEntries (maxLocks : Nat) (es : List LockT) (held : SynchLocksHeld) : SynchLocksHeld :=
  { held with locks := es ++ List.replicate (maxLocks - es.length) .cleared, n := es.length }

structure Valid (maxLocks : Nat) (held : SynchLocksHeld) : Prop where
  eq : held = held.withEntries maxLocks held.entries
  le : held.entries.length ≤ maxLocks
  nodup : (held.entries.map LockT.id).Nodup
  count_pos : ∀ l ∈ held.entries, 0 < l.count

variable {maxLocks : Nat} {held : SynchLocksHeld}

@[simp] theorem entries_withEntries (maxLocks : Nat) (es : List LockT) (held : SynchLocksHeld) :
    (held.withEntries maxLocks es).entries = es := by
  simp [entries, withEntries]

theorem withEntries_withEntries (es es' : List LockT) :
    (held.withEntries maxLocks es).withEntries maxLocks es' = held.withEntries maxLocks es' := rfl

theorem valid_withEntries {es : List LockT} (le : es.length ≤ maxLocks)
    (nodup : (es.map LockT.id).Nodup) (count_pos : ∀ l ∈ es, 0 < l.count) :
    (held.withEntries maxLocks es).Valid maxLocks := by
  refine ⟨?_, by simpa, by simpa, by simpa⟩
  simp [withEntries_withEntries]

theorem valid_new (maxLocks : Nat) (thread : ThreadId) : (new maxLocks thread).Valid maxLocks :=
  ⟨by simp [new, withEntries, entries], by simp [new, entries], by simp [new, entries],
    by simp [new, entries]⟩

theorem Valid.n_eq (h : held.Valid maxLocks) : held.n = held.entries.length := by
  have := congrArg n h.eq
  exact this

theorem Valid.length_locks (h : held.Valid maxLocks) : held.locks.length = maxLocks := by
  have hlocks := congrArg (fun s => s.locks.length) h.eq
  have := h.le
  simp only [withEntries, List.length_append, List.length_replicate] at hlocks
  omega

/-- Behind the entries every slot is cleared. -/
theorem Valid.drop_locks (h : held.Valid maxLocks) :
    held.locks.drop held.n = List.replicate (maxLocks - held.n) .cleared := by
  have hlocks := congrArg locks h.eq
  simp [hlocks, h.n_eq, withEntries]

end SynchLocksHeld

namespace ThreadHistory
open CountedList SynchLocksHeld

theorem findIdx?_of_mem {α : Type*} {p : α → Bool} {a b : List α} {e : α}
    (ha : ∀ x ∈ a, p x = false) (he : p e = true) :
    (a ++ e :: b).findIdx? p = some a.length := by
  induction a with
  | nil => simp [List.findIdx?_cons, he]
  | cons x a ih => simp [List.findIdx?_cons, ha x, ih fun y hy => ha y (by simp [hy])]

theorem modify_mid {α : Type*} (a c : List α) (e : α) (f : α → α) :
    (a ++ e :: c).modify a.length f = a ++ f e :: c := by
  induction a with
  | nil => rfl
  | cons x a ih => simp [ih]

theorem set_mid {α : Type*} (a c : List α) (e x : α) :
    (a ++ e :: c).set a.length x = a ++ x :: c := by
  induction a with
  | nil => rfl
  | cons y a ih => simp [ih]

section Operations

variable {maxLocks : Nat} {held : SynchLocksHeld} (h : held.Valid maxLocks) {id : GraphId}
  {mu : Addr} {thread : ThreadId}
include h

theorem inLock_absent (absent : ∀ l ∈ held.entries, l.id ≠ id) :
    updateLockHistoryInLock mu id held =
      if held.entries.length = maxLocks then held
      else held.withEntries maxLocks (held.entries ++ [⟨some mu, 1, id⟩]) := by
  have hfind : held.entries.findIdx? (fun l => l.id = id) = none := by
    simpa [List.findIdx?_eq_none_iff] using absent
  rw [updateLockHistoryInLock, hfind]
  simp only [h.n_eq, h.length_locks]
  split_ifs with hn
  · rfl
  · obtain ⟨k, hk⟩ : ∃ k, maxLocks - held.entries.length = k + 1 :=
      ⟨maxLocks - held.entries.length - 1, by have := h.le; omega⟩
    have hlocks : held.locks = held.entries ++ .cleared :: List.replicate k .cleared := by
      have := congrArg locks h.eq
      rwa [withEntries, hk, List.replicate_succ] at this
    have hk' : maxLocks - (held.entries.length + 1) = k := by omega
    rw [hlocks, set_mid]
    simp [withEntries, hk']

variable {a b : List LockT} {e : LockT} (hes : held.entries = a ++ e :: b) (hid : e.id = id)
include hes hid

theorem find_entry : held.entries.findIdx? (fun l => l.id = id) = some a.length := by
  have nodup := h.nodup
  rw [hes, List.map_append, List.map_cons] at nodup
  rw [hes]
  refine findIdx?_of_mem (fun x hx => ?_) (by simpa using hid)
  have hdisjoint := List.disjoint_of_nodup_append nodup (List.mem_map_of_mem hx)
  have hne : x.id ≠ e.id := fun heq => hdisjoint (by simp [heq])
  simpa [← hid] using hne

omit hid in
theorem locks_of_entries : held.locks = a ++ e :: (b ++ List.replicate
    (maxLocks - held.entries.length) .cleared) := by
  have hlocks := congrArg locks h.eq
  rw [withEntries] at hlocks
  rw [hlocks]
  simp [hes]

theorem inLock_present : updateLockHistoryInLock mu id held =
    held.withEntries maxLocks (a ++ { e with count := e.count + 1 } :: b) := by
  rw [updateLockHistoryInLock, find_entry h hes hid]
  simp only [locks_of_entries h hes, modify_mid]
  have hlen : held.entries.length = a.length + (b.length + 1) := by simp [hes]
  simp [withEntries, h.n_eq, hlen]

theorem afterLock_decrement (hcount : e.count ≠ 1) : updateLockHistoryAfterLock thread mu id held =
    .ok (held.withEntries maxLocks (a ++ { e with count := e.count - 1 } :: b)) := by
  rw [updateLockHistoryAfterLock, find_entry h hes hid]
  have hget : held.locks.getD a.length default = e := by
    simp [locks_of_entries h hes]
  have hlen : held.entries.length = a.length + (b.length + 1) := by simp [hes]
  simp only [hget, hcount, if_false]
  simp only [locks_of_entries h hes, modify_mid]
  simp [withEntries, h.n_eq, hlen]

theorem afterLock_remove (hcount : e.count = 1) : updateLockHistoryAfterLock thread mu id held =
    .ok (held.withEntries maxLocks (a ++ closeGap b)) := by
  rw [updateLockHistoryAfterLock, find_entry h hes hid]
  have hget : held.locks.getD a.length default = e := by
    simp [locks_of_entries h hes]
  have hlen : held.entries.length = a.length + (b.length + 1) := by simp [hes]
  have hle := h.le
  simp only [hget, hcount, if_true]
  rcases List.eq_nil_or_concat' b with rfl | ⟨b, z, rfl⟩
  · have hn : held.n - 1 = a.length := by simp [h.n_eq, hlen]
    have hk : maxLocks - a.length = maxLocks - held.entries.length + 1 := by simp at hlen; omega
    simp only [hn, hget]
    simp [locks_of_entries h hes, withEntries, closeGap, hk, List.replicate_succ]
  · have hn : held.n - 1 = (a ++ z :: b).length := by simp [h.n_eq, hlen]
    have hk : maxLocks - (a ++ z :: b).length = maxLocks - held.entries.length + 1 := by
      simp at hlen ⊢; omega
    have hlocks : held.locks = (a ++ e :: b) ++ z :: List.replicate
        (maxLocks - held.entries.length) .cleared := by
      simp [locks_of_entries h hes]
    have hlast : held.locks.getD (a ++ z :: b).length default = z := by
      have hlen' : (a ++ z :: b).length = (a ++ e :: b).length := by simp
      rw [hlocks, hlen']
      simp
    have hset : held.locks.set a.length z = (a ++ z :: b) ++ z :: List.replicate
        (maxLocks - held.entries.length) .cleared := by
      rw [hlocks, List.append_assoc, List.cons_append, set_mid, List.append_assoc, List.cons_append]
    rw [hn, hlast, hset, set_mid, closeGap_concat]
    simp only [withEntries, hk, List.replicate_succ]

omit h hes hid in
theorem afterLock_absent (absent : ∀ l ∈ held.entries, l.id ≠ id) :
    updateLockHistoryAfterLock thread mu id held =
      .error (if ∃ l ∈ held.entries, l.mu = some mu
        then .releaseLockedDeletedByOtherThread thread mu
        else .releaseLockWhichThreadDoesHold thread mu) := by
  have hfind : held.entries.findIdx? (fun l => l.id = id) = none := by
    simpa [List.findIdx?_eq_none_iff] using absent
  rw [updateLockHistoryAfterLock, hfind]
  cases hmu : held.entries.findIdx? (fun l => l.mu = some mu) with
  | none =>
    have : ¬ ∃ l ∈ held.entries, l.mu = some mu := by
      simpa [List.findIdx?_eq_none_iff] using hmu
    simp [this]
  | some i =>
    have : ∃ l ∈ held.entries, l.mu = some mu := by
      by_contra hno
      have : held.entries.findIdx? (fun l => l.mu = some mu) = none := by
        simpa [List.findIdx?_eq_none_iff] using hno
      cases this.symm.trans hmu
    simp [this]

end Operations

/-- An id has no entry or one. -/
theorem entry_cases (es : List LockT) (id : GraphId) :
    (∀ l ∈ es, l.id ≠ id) ∨ ∃ a e b, es = a ++ e :: b ∧ e.id = id := by
  by_cases hex : ∃ l ∈ es, l.id = id
  · obtain ⟨e, he, hid⟩ := hex
    obtain ⟨a, b, rfl⟩ := List.append_of_mem he
    exact Or.inr ⟨a, e, b, rfl, hid⟩
  · exact Or.inl fun l hl hid => hex ⟨l, hl, hid⟩

theorem valid_inLock {maxLocks : Nat} {held : SynchLocksHeld} (h : held.Valid maxLocks)
    (mu : Addr) (id : GraphId) : (updateLockHistoryInLock mu id held).Valid maxLocks := by
  obtain absent | ⟨a, e, b, hes, hid⟩ := entry_cases held.entries id
  · rw [inLock_absent h absent]
    split_ifs with hfull
    · exact h
    · apply valid_withEntries
      · have := h.le
        simp
        omega
      · rw [List.map_append]
        apply h.nodup.append (by simp)
        simpa [List.Disjoint] using fun l hl => absent l hl
      · intro l hl
        obtain hl | rfl : l ∈ held.entries ∨ l = _ := by simpa using hl
        · exact h.count_pos l hl
        · simp
  · rw [inLock_present h hes hid]
    have hle := h.le
    have hnodup := h.nodup
    have hpos := h.count_pos
    rw [hes] at hle hnodup hpos
    apply valid_withEntries
    · simpa using hle
    · simpa using hnodup
    · grind

theorem valid_afterLock {maxLocks : Nat} {held held' : SynchLocksHeld} (h : held.Valid maxLocks)
    {thread : ThreadId} {mu : Addr} {id : GraphId}
    (hok : updateLockHistoryAfterLock thread mu id held = .ok held') : held'.Valid maxLocks := by
  obtain absent | ⟨a, e, b, hes, hid⟩ := entry_cases held.entries id
  · rw [afterLock_absent absent] at hok
    cases hok
  · have hle := h.le
    have hnodup := h.nodup
    have hpos := h.count_pos
    rw [hes] at hle hnodup hpos
    by_cases hcount : e.count = 1
    · have hgap := closeGap_perm b
      obtain rfl := Except.ok.inj ((afterLock_remove h hes hid hcount).symm.trans hok)
      apply valid_withEntries
      · have := hgap.length_eq
        simp at hle ⊢
        omega
      · have hperm := ((hgap.append_left a).map LockT.id).nodup_iff.mpr
        apply hperm
        simp only [List.map_append, List.map_cons] at hnodup ⊢
        exact hnodup.sublist ((List.sublist_cons_self _ _).append_left _)
      · intro l hl
        apply hpos
        have := (hgap.append_left a).mem_iff.mp hl
        grind
    · obtain rfl := Except.ok.inj ((afterLock_decrement h hes hid hcount).symm.trans hok)
      apply valid_withEntries
      · simpa using hle
      · simpa using hnodup
      · have := hpos e (by simp)
        grind

theorem mem_inLock {maxLocks : Nat} {held : SynchLocksHeld} (h : held.Valid maxLocks) {mu : Addr}
    {id : GraphId} {l : LockT} (hl : l ∈ (updateLockHistoryInLock mu id held).entries) :
    (l.mu = some mu ∧ l.id = id) ∨ ∃ l₀ ∈ held.entries, l₀.id = l.id ∧ l₀.mu = l.mu := by
  obtain absent | ⟨a, e, b, hes, hid⟩ := entry_cases held.entries id
  · rw [inLock_absent h absent] at hl
    split_ifs at hl with hfull
    · exact Or.inr ⟨l, hl, rfl, rfl⟩
    · simp only [entries_withEntries, List.mem_append, List.mem_singleton] at hl
      obtain hl | rfl := hl
      · exact Or.inr ⟨l, hl, rfl, rfl⟩
      · exact Or.inl ⟨rfl, rfl⟩
  · rw [inLock_present h hes hid] at hl
    simp only [entries_withEntries] at hl
    rw [hes]
    grind

theorem mem_afterLock {maxLocks : Nat} {held held' : SynchLocksHeld} (h : held.Valid maxLocks)
    {thread : ThreadId} {mu : Addr} {id : GraphId}
    (hok : updateLockHistoryAfterLock thread mu id held = .ok held') {l : LockT}
    (hl : l ∈ held'.entries) : ∃ l₀ ∈ held.entries, l₀.id = l.id ∧ l₀.mu = l.mu := by
  obtain absent | ⟨a, e, b, hes, hid⟩ := entry_cases held.entries id
  · rw [afterLock_absent absent] at hok
    cases hok
  · by_cases hcount : e.count = 1
    · obtain rfl := Except.ok.inj ((afterLock_remove h hes hid hcount).symm.trans hok)
      simp only [entries_withEntries, List.mem_append, (closeGap_perm b).mem_iff] at hl
      refine ⟨l, ?_, rfl, rfl⟩
      rw [hes]
      grind
    · obtain rfl := Except.ok.inj ((afterLock_decrement h hes hid hcount).symm.trans hok)
      simp only [entries_withEntries] at hl
      rw [hes]
      grind

/-- With room for a lock an acquisition is recorded. -/
theorem inLock_recorded {maxLocks : Nat} {held : SynchLocksHeld} (h : held.Valid maxLocks)
    (mu : Addr) (id : GraphId) (room : held.n < maxLocks) :
    ∃ l ∈ (updateLockHistoryInLock mu id held).entries, l.id = id := by
  obtain absent | ⟨a, e, b, hes, hid⟩ := entry_cases held.entries id
  · have hne : held.entries.length ≠ maxLocks := by
      rw [← h.n_eq]
      omega
    rw [inLock_absent h absent, if_neg hne, entries_withEntries]
    exact ⟨⟨some mu, 1, id⟩, by simp, rfl⟩
  · rw [inLock_present h hes hid, entries_withEntries]
    exact ⟨{ e with count := e.count + 1 }, by simp, hid⟩

theorem exists_of_replaced {a b : List LockT} {e e' l : LockT} (hid : e'.id = e.id)
    (hl : l ∈ a ++ e :: b) : ∃ l' ∈ a ++ e' :: b, l'.id = l.id := by
  obtain hl | rfl | hl : l ∈ a ∨ l = e ∨ l ∈ b := by simpa using hl
  · exact ⟨l, by simp [hl], rfl⟩
  · exact ⟨e', by simp, hid⟩
  · exact ⟨l, by simp [hl], rfl⟩

/-- No acquisition removes an entry. -/
theorem inLock_keeps {maxLocks : Nat} {held : SynchLocksHeld} (h : held.Valid maxLocks) {mu : Addr}
    {id : GraphId} {l : LockT} (hl : l ∈ held.entries) :
    ∃ l' ∈ (updateLockHistoryInLock mu id held).entries, l'.id = l.id := by
  obtain absent | ⟨a, e, b, hes, hid⟩ := entry_cases held.entries id
  · rw [inLock_absent h absent]
    split_ifs
    · exact ⟨l, hl, rfl⟩
    · exact ⟨l, by simp [hl], rfl⟩
  · rw [inLock_present h hes hid, entries_withEntries]
    rw [hes] at hl
    apply exists_of_replaced _ hl
    rfl

/-- A release removes the entry of its own lock only. -/
theorem afterLock_keeps {maxLocks : Nat} {held held' : SynchLocksHeld} (h : held.Valid maxLocks)
    {thread : ThreadId} {mu : Addr} {id : GraphId}
    (hok : updateLockHistoryAfterLock thread mu id held = .ok held') {l : LockT}
    (hl : l ∈ held.entries) (hne : l.id ≠ id) : ∃ l' ∈ held'.entries, l'.id = l.id := by
  obtain absent | ⟨a, e, b, hes, hid⟩ := entry_cases held.entries id
  · rw [afterLock_absent absent] at hok
    cases hok
  · rw [hes] at hl
    by_cases hcount : e.count = 1
    · obtain rfl := Except.ok.inj ((afterLock_remove h hes hid hcount).symm.trans hok)
      simp only [entries_withEntries, List.mem_append, (closeGap_perm b).mem_iff]
      grind
    · obtain rfl := Except.ok.inj ((afterLock_decrement h hes hid hcount).symm.trans hok)
      rw [entries_withEntries]
      apply exists_of_replaced _ hl
      rfl

/-! ## The start time -/

theorem inLock_start (mu : Addr) (id : GraphId) (held : SynchLocksHeld) :
    (updateLockHistoryInLock mu id held).lockStartTimePoint = held.lockStartTimePoint := by
  unfold updateLockHistoryInLock
  split
  · split_ifs <;> rfl
  · rfl

theorem afterLock_start {held held' : SynchLocksHeld} {thread : ThreadId} {mu : Addr}
    {id : GraphId} (hok : updateLockHistoryAfterLock thread mu id held = .ok held') :
    held'.lockStartTimePoint = held.lockStartTimePoint := by
  unfold updateLockHistoryAfterLock at hok
  split at hok
  · split at hok <;> cases hok
  · split_ifs at hok <;> obtain rfl := Except.ok.inj hok <;> rfl

end ThreadHistory
end CppGuard
