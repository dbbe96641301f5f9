import CppGuard.DeadlockMonitor.Invariant
import CppGuard.ThreadHistory.Records

/-!
# Locks that are held and not deleted

As long as no lock is deleted that a thread holds, its history is a counted list of
addresses: every entry has the live id of its address.
-/
namespace CppGuard
open CountedList ThreadHistory DeadlockMonitor

namespace Rep

theorem Clean.live_leftUnique {g : Rep} (hg : g.Clean) : Relator.LeftUnique g.Live :=
  fun _ _ _ h h' => h.id_inj hg.toIndexed h'

theorem Clean.live_rightUnique {g : Rep} (hg : g.Clean) : Relator.RightUnique g.Live :=
  fun _ _ _ h h' => h.addr_inj hg.toIndexed h'

end Rep

namespace Core
open CppGuard.Rep

/-- Thread `t` holds the locks `es`. -/
def Holds (s : Core) (t : ThreadId) (es : List (Addr × Nat)) : Prop :=
  Records s.graph.Live (fun p => p) (s.held t) es

variable {maxLocks now : Nat} {s s' : Core} {t : ThreadId} {mu : Addr} {id : GraphId}
  {es : List (Addr × Nat)} {hook : Hook}

theorem Holds.evolves (h : Holds s t es) (hev : Evolves hook s.graph s'.graph)
    (hentries : (s'.held t).entries = (s.held t).entries)
    (hdelete : ∀ p ∈ keys es, hook ≠ .deleteLock p) : Holds s' t es :=
  (h.imp_of_mem fun x p hp hx => hev.live x p hx (hdelete p hp)).of_entries_eq hentries

theorem Holds.inLock (h : Holds s t es) (hs : s.Inv maxLocks) (hid : s.graph.Live id mu) :
    Records s.graph.Live (fun p => p) (updateLockHistoryInLock mu id (s.held t))
      (acquire maxLocks mu es) :=
  Records.inLock (hs.valid t) h hs.clean.live_leftUnique hs.clean.live_rightUnique hid

/-- What a release leaves to the thread. -/
structure Left (s : Core) (t : ThreadId) (mu : Addr) (es : List (Addr × Nat)) (s' : Core) :
    Prop where
  holds : Holds s' t (release mu es)
  held : ∀ u, u ≠ t → s'.held u = s.held u
  calls : s'.calls = s.calls
  ignoreLock : s'.ignoreLock = s.ignoreLock
  ignoreUnlock : s'.ignoreUnlock = s.ignoreUnlock
  arc : ∀ x y, s'.graph.Arc x y ↔ s.graph.Arc x y
  flag : s'.potentialDeadlocksFound = s.potentialDeadlocksFound
  errors : mu ∈ keys es → s'.errors = s.errors

theorem disarm_start {held : SynchLocksHeld} (h : (disarm held).n = 0) :
    (disarm held).lockStartTimePoint = 0 := by
  unfold disarm at h ⊢
  split_ifs at h ⊢ with hn
  · rfl
  · exact absurd h hn

def start (s : Core) (t : ThreadId) : Nat := (s.held t).lockStartTimePoint

/-- A hook keeps the start time, clears it behind the last lock, or sets it before the first
one. -/
theorem Effect.start_cases {hook : Hook} (h : Effect maxLocks s t now hook s')
    (hwait : hook ≠ .cndWait) :
    s'.start t = s.start t ∨ (s'.held t).n = 0 ∧ s'.start t = 0 ∨
      (s.held t).n = 0 ∧ s'.start t = now ∧
        ∃ mu, hook = .beforeLock mu ∨ hook = .beforeTryLock mu := by
  have arm : ∀ held, (arm now held).lockStartTimePoint = held.lockStartTimePoint ∨
      held.n = 0 ∧ (CppGuard.arm now held).lockStartTimePoint = now := by
    intro held
    unfold CppGuard.arm
    split_ifs with hn
    · exact Or.inr ⟨hn, rfl⟩
    · exact Or.inl rfl
  have disarm : ∀ held, (disarm held).lockStartTimePoint = held.lockStartTimePoint ∨
      (disarm held).n = 0 ∧ (disarm held).lockStartTimePoint = 0 := by
    intro held
    unfold DeadlockMonitor.disarm
    split_ifs with hn
    · exact Or.inr ⟨hn, rfl⟩
    · exact Or.inl rfl
  unfold Core.start
  cases h with
  | @lock mu | @tryLock mu =>
    simp only [Function.update_self]
    obtain hsame | ⟨hn, hnow⟩ := arm (s.held t)
    · exact Or.inl hsame
    · exact Or.inr (Or.inr ⟨hn, hnow, mu, by simp⟩)
  | inLock =>
    simp only [Function.update_self, inLock_start, true_or]
  | unlock _ _ hafter =>
    simp only [Function.update_self]
    obtain hsame | hzero := disarm _
    · exact Or.inl (hsame.trans (afterLock_start hafter))
    · exact Or.inr (Or.inl hzero)
  | unlockError =>
    simp only [Function.update_self]
    obtain hsame | hzero := disarm (s.held t)
    · exact Or.inl hsame
    · exact Or.inr (Or.inl hzero)
  | cndWait => exact absurd rfl hwait
  | threadDelete => simp [SynchLocksHeld.new]
  | lockIgnored | lockFull | lockRefused | unlockIgnored | delete | deleteHeld |
    increaseIgnoreCounter | setOptions => exact Or.inl rfl

/-- A release by a thread that holds no other lock disarms the watchdog. -/
theorem Effect.disarmed (heffect : Effect maxLocks s t now (.afterLock mu) s')
    (hignore : s.ignoreUnlock t = 0) (hn : (s'.held t).n = 0) :
    (s'.held t).lockStartTimePoint = 0 := by
  cases heffect with
  | unlockIgnored hpos => exact absurd hignore (Nat.pos_iff_ne_zero.mp hpos)
  | unlock | unlockError =>
    simp only [Function.update_self] at hn ⊢
    exact disarm_start hn

theorem Effect.left (heffect : Effect maxLocks s t now (.afterLock mu) s') (hs : s.Inv maxLocks)
    (hignore : s.ignoreUnlock t = 0) (h : Holds s t es) : Left s t mu es s' := by
  have hframe := fun u (hu : u ≠ t) => (heffect.frame hu).1
  cases heffect with
  | unlockIgnored hpos => exact absurd hignore (Nat.pos_iff_ne_zero.mp hpos)
  | @unlock _ id g held' _ hid hafter =>
    have hgot := hs.clean.getId_arc hid
    have hholds : Records g.Live (fun p => p) (s.held t) es :=
      h.mono fun x p hx => (hgot.live x p).mpr (Or.inl hx)
    obtain ⟨hmu, hrecords⟩ := hholds.of_afterLock (hs.valid t) hgot.clean.live_leftUnique
      hgot.clean.live_rightUnique hgot.self hafter
    refine ⟨?_, hframe, rfl, rfl, rfl, hgot.arc, rfl, fun _ => rfl⟩
    exact hrecords.of_entries_eq (by simp)
  | @unlockError _ id g report _ hid hafter =>
    have hgot := hs.clean.getId_arc hid
    have hholds : Records g.Live (fun p => p) (s.held t) es :=
      h.mono fun x p hx => (hgot.live x p).mpr (Or.inl hx)
    have hmu := hholds.notMem_of_afterLock (hs.valid t) hgot.clean.live_leftUnique hgot.self hafter
    refine ⟨?_, hframe, rfl, rfl, rfl, hgot.arc, rfl, fun h => absurd h hmu⟩
    rw [release_absent hmu]
    exact hholds.of_entries_eq (by simp)

/-- A call of `dlc_deadlock_check_before_lock` by a thread without room. -/
theorem Effect.full (heffect : Effect maxLocks s t now (.beforeLock mu) s')
    (hignore : s.ignoreLock t = 0) (hfull : maxLocks ≤ (s.held t).n) : ∃ report,
    s' = { s.called t mu invalidGraphId with
      errors := s.errors ++ [(report, false)], otherErrorsFound := true } := by
  cases heffect with
  | lockIgnored hpos => exact absurd hignore (Nat.pos_iff_ne_zero.mp hpos)
  | lockFull => exact ⟨_, rfl⟩
  | lock _ hroom | lockRefused _ hroom => exact absurd hroom (Nat.not_lt.mpr hfull)

/-- What `dlc_deadlock_check_before_try_lock` does. -/
structure Tried (s : Core) (t : ThreadId) (mu : Addr) (id : GraphId) (s' : Core) : Prop where
  live : s'.graph.Live id mu
  arc : ∀ x y, s'.graph.Arc x y ↔ s.graph.Arc x y
  calls : s'.calls = (s.called t mu id).calls
  entries : ∀ u, (s'.held u).entries = (s.held u).entries
  ignoreLock : s.ignoreLock t = 0 → s'.ignoreLock = s.ignoreLock
  ignoreUnlock : s'.ignoreUnlock = s.ignoreUnlock
  flag : s'.potentialDeadlocksFound = s.potentialDeadlocksFound
  errors : s'.errors = s.errors

theorem Effect.tried (heffect : Effect maxLocks s t now (.beforeTryLock mu) s')
    (hs : s.Inv maxLocks) : ∃ id, Tried s t mu id s' := by
  cases heffect with
  | @tryLock _ id g hid =>
    have hgot := hs.clean.getId_arc hid
    refine ⟨id, hgot.self, hgot.arc, rfl, fun u => ?_, fun hzero => ?_, rfl, rfl, rfl⟩
    · grind [Function.update_apply, entries_arm]
    · simp [hzero]

/-- What `dlc_deadlock_delete_lock` does outside the graph. -/
structure Deleted (s : Core) (t : ThreadId) (mu : Addr) (s' : Core) : Prop where
  held : s'.held = s.held
  calls : s'.calls = s.calls
  ignoreLock : s'.ignoreLock = s.ignoreLock
  ignoreUnlock : s'.ignoreUnlock = s.ignoreUnlock
  flag : s'.potentialDeadlocksFound = s.potentialDeadlocksFound
  errors : (∀ l ∈ (s.held t).entries, l.mu ≠ some mu) → s'.errors = s.errors

theorem Effect.deleted (heffect : Effect maxLocks s t now (.deleteLock mu) s') :
    Deleted s t mu s' := by
  cases heffect with
  | delete => exact ⟨rfl, rfl, rfl, rfl, rfl, fun _ => rfl⟩
  | deleteHeld _ hheld =>
    refine ⟨rfl, rfl, rfl, rfl, rfl, fun hnot => ?_⟩
    obtain ⟨l, hl, hmu⟩ := hheld
    exact absurd hmu (hnot l hl)

end Core
end CppGuard
