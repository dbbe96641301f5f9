import CppGuard.DeadlockMonitor.Holds

/-!
# Releasing everything

`Usage` follows one thread through the hooks, without the monitor: what it has acquired and
not left, and whether a lock was deleted in the meantime. A release looks for the id that
the address has now, so the entry of a deleted lock cannot be released any more: it stays
for good. Nothing else stays.
-/
namespace CppGuard
open CountedList Transition ThreadHistory DeadlockMonitor

structure Usage where
  /-- The lock between its before-hook and its in-hook. -/
  acquiring : Option Addr := none
  /-- How many recorded acquisitions of a lock have not been left. -/
  acquired : Addr → Nat := fun _ => 0
  /-- A lock was deleted between the before-hook of an acquisition and its leave. -/
  deletedInUse : Bool := false

namespace Usage

def InUse (u : Usage) (mu : Addr) : Prop := u.acquiring = some mu ∨ 0 < u.acquired mu

instance (u : Usage) (mu : Addr) : Decidable (u.InUse mu) := inferInstanceAs (Decidable (_ ∨ _))

/-- Thread `t` acquires one lock at a time and leaves what it has acquired. Locks are
deleted, and other threads act, at any time. -/
def step (t : ThreadId) (u : Usage) (e : Event) : Option Usage :=
  match e.hook with
  | .deleteLock mu => some { u with deletedInUse := u.deletedInUse || decide (u.InUse mu) }
  | .beforeLock mu =>
    if e.thread ≠ t then some u
    else if u.acquiring = none then some { u with acquiring := some mu }
    else none
  | .inLock 0 =>
    if e.thread ≠ t then some u
    else u.acquiring.map fun mu =>
      { u with
        acquiring := none
        acquired := Function.update u.acquired mu (u.acquired mu + 1) }
  | .afterLock mu =>
    if e.thread ≠ t then some u
    else if u.acquiring = none ∧ 0 < u.acquired mu then
      some { u with acquired := Function.update u.acquired mu (u.acquired mu - 1) }
    else none
  | _ => if e.thread ≠ t then some u else none

/-- Everything that was acquired has been left. -/
def Done (u : Usage) : Prop := u.acquiring = none ∧ ∀ mu, u.acquired mu = 0

end Usage

namespace Config

/-- Thread `t` has room for a lock when it asks for one. -/
def BelowMax (maxLocks : Nat) (t : ThreadId) (c : Config) (e : Event) : Prop :=
  e.thread = t → e.hook.isBeforeLock = true → (c.monitor.locksHeld maxLocks t).n < maxLocks

instance (maxLocks : Nat) (t : ThreadId) (c : Config) (e : Event) :
    Decidable (c.BelowMax maxLocks t e) :=
  inferInstanceAs (Decidable (_ → _ → _))

end Config

/-- The monitor `s` agrees with the usage `u` of thread `t`. -/
structure Uses (maxLocks : Nat) (t : ThreadId) (s : Core) (u : Usage) : Prop where
  inv : s.Inv maxLocks
  ignoreLock : s.ignoreLock t = 0
  ignoreUnlock : s.ignoreUnlock t = 0
  room : u.acquiring ≠ none → (s.held t).n < maxLocks
  disarmed : u.acquiring = none → (s.held t).n = 0 → (s.held t).lockStartTimePoint = 0
  pending : ∀ mu, u.acquiring = some mu → ∃ id calls, s.calls t = (mu, id) :: calls ∧
    (s.graph.Live id mu ∨ u.deletedInUse = true)
  recorded : u.deletedInUse = false → ∃ es, s.Holds t es ∧ Counts es u.acquired
  stale : u.deletedInUse = true → (∃ l ∈ (s.held t).entries, s.graph.Retired l.id) ∨
    ∃ mu call calls, u.acquiring = some mu ∧ s.calls t = call :: calls ∧ s.graph.Retired call.2

namespace Uses

variable {maxLocks now : Nat} {t : ThreadId} {s s' : Core} {u : Usage} {mu : Addr}

theorem stale_entry (h : Uses maxLocks t s u) (hidle : u.acquiring = none)
    (hdeleted : u.deletedInUse = true) : ∃ l ∈ (s.held t).entries, s.graph.Retired l.id := by
  obtain hentry | ⟨mu, -, -, hmu, -⟩ := h.stale hdeleted
  · exact hentry
  · cases hidle.symm.trans hmu

/-- A hook of another thread that deletes nothing. -/
theorem other {t' : ThreadId} {hook : Hook} (h : Uses maxLocks t s u)
    (heffect : Core.Effect maxLocks s t' now hook s') (hne : t ≠ t')
    (hhook : ∀ p, hook ≠ .deleteLock p) : Uses maxLocks t s' u := by
  obtain ⟨hheld, hcalls, hlock, hunlock⟩ := heffect.frame hne
  have hev := heffect.evolves h.inv
  refine ⟨heffect.inv h.inv, hlock.trans h.ignoreLock, hunlock.trans h.ignoreUnlock, ?_, ?_, ?_, ?_,
    ?_⟩
  · rw [hheld]
    exact h.room
  · rw [hheld]
    exact h.disarmed
  · intro mu hmu
    obtain ⟨id, calls, hid, hlive⟩ := h.pending mu hmu
    exact ⟨id, calls, hcalls.trans hid, hlive.imp_left fun hl => hev.live id mu hl (hhook mu)⟩
  · intro hdeleted
    obtain ⟨es, hes, hcounts⟩ := h.recorded hdeleted
    exact ⟨es, hes.evolves hev (by rw [hheld]) fun p _ => hhook p, hcounts⟩
  · intro hdeleted
    rw [hheld, hcalls]
    obtain ⟨l, hl, hretired⟩ | ⟨mu, call, calls, hmu, hcall, hretired⟩ := h.stale hdeleted
    · exact Or.inl ⟨l, hl, hev.retired _ hretired⟩
    · exact Or.inr ⟨mu, call, calls, hmu, hcall, hev.retired _ hretired⟩

theorem delete {t' : ThreadId} (h : Uses maxLocks t s u)
    (heffect : Core.Effect maxLocks s t' now (.deleteLock mu) s') :
    Uses maxLocks t s' { u with deletedInUse := u.deletedInUse || decide (u.InUse mu) } := by
  have hev := heffect.evolves h.inv
  obtain ⟨hheld, hcalls, hlock, hunlock, -, -⟩ := heffect.deleted
  refine ⟨heffect.inv h.inv, ?_, ?_, ?_, ?_, ?_, ?_, ?_⟩
  · rw [hlock]
    exact h.ignoreLock
  · rw [hunlock]
    exact h.ignoreUnlock
  · rw [hheld]
    exact h.room
  · rw [hheld]
    exact h.disarmed
  · intro p hp
    obtain ⟨id, calls, hid, hlive⟩ := h.pending p hp
    rw [hcalls]
    refine ⟨id, calls, hid, ?_⟩
    obtain hlive | hdeleted := hlive
    · by_cases hpmu : p = mu
      · subst hpmu
        have hinUse : u.InUse p := Or.inl hp
        simp [hinUse]
      · exact Or.inl (hev.live id p hlive (by simpa using Ne.symm hpmu))
    · simp [hdeleted]
  · intro hdeleted
    obtain ⟨hbefore, hnot⟩ : u.deletedInUse = false ∧ ¬ u.InUse mu := by simpa using hdeleted
    obtain ⟨es, hes, hcounts⟩ := h.recorded hbefore
    refine ⟨es, hes.evolves hev (by rw [hheld]) fun p hp heq => ?_, hcounts⟩
    obtain rfl := Hook.deleteLock.inj heq
    exact hnot (Or.inr ((hcounts.mem_keys mu).mp hp))
  · intro hdeleted
    rw [hheld, hcalls]
    by_cases hbefore : u.deletedInUse = true
    · obtain ⟨l, hl, hretired⟩ | ⟨p, call, calls, hp, hcall, hretired⟩ := h.stale hbefore
      · exact Or.inl ⟨l, hl, hev.retired _ hretired⟩
      · exact Or.inr ⟨p, call, calls, hp, hcall, hev.retired _ hretired⟩
    · obtain hacquiring | hacquired : u.InUse mu := by simpa [hbefore] using hdeleted
      · obtain ⟨id, calls, hid, hlive⟩ := h.pending mu hacquiring
        have hlive := hlive.resolve_right hbefore
        exact Or.inr ⟨mu, _, calls, hacquiring, hid, hev.removed id mu hlive rfl⟩
      · obtain ⟨es, hes, hcounts⟩ := h.recorded (by simpa using hbefore)
        obtain ⟨n, hn⟩ := mem_keys.mp ((hcounts.mem_keys mu).mpr hacquired)
        obtain ⟨l, hl, -, -, hlive⟩ := forall₂_mem_right hes hn
        exact Or.inl ⟨l, hl, hev.removed l.id mu hlive rfl⟩

theorem beforeLock (h : Uses maxLocks t s u)
    (heffect : Core.Effect maxLocks s t now (.beforeLock mu) s') (hidle : u.acquiring = none)
    (hroom : (s.held t).n < maxLocks) : Uses maxLocks t s' { u with acquiring := some mu } := by
  have hs' := heffect.inv h.inv
  have hev := heffect.evolves h.inv
  obtain ⟨id, refused, hlocked⟩ := heffect.locked h.inv h.ignoreLock hroom
  refine ⟨hs', ?_, ?_, fun _ => ?_, by simp, ?_, ?_, ?_⟩
  · rw [hlocked.ignoreLock]
    exact h.ignoreLock
  · rw [hlocked.ignoreUnlock]
    exact h.ignoreUnlock
  · rwa [(hs'.valid t).n_eq, hlocked.entries, ← (h.inv.valid t).n_eq]
  · intro p hp
    obtain rfl := Option.some.inj hp
    exact ⟨id, s.calls t, by simp [hlocked.calls, Core.called], Or.inl hlocked.entered.self⟩
  · intro hdeleted
    obtain ⟨es, hes, hcounts⟩ := h.recorded hdeleted
    exact ⟨es, hes.evolves hev (hlocked.entries t) (by simp), hcounts⟩
  · intro hdeleted
    obtain ⟨l, hl, hretired⟩ := h.stale_entry hidle hdeleted
    exact Or.inl ⟨l, (hlocked.entries t).symm ▸ hl, hev.retired _ hretired⟩

theorem inLock (h : Uses maxLocks t s u)
    (heffect : Core.Effect maxLocks s t now (.inLock 0) s') (hmu : u.acquiring = some mu) :
    Uses maxLocks t s' { u with
      acquiring := none
      acquired := Function.update u.acquired mu (u.acquired mu + 1) } := by
  have hs' := heffect.inv h.inv
  have hroom := h.room (by simp [hmu])
  obtain ⟨id, calls, hcalls, hlive⟩ := h.pending mu hmu
  cases heffect with
  | @inLock _ mu' id' hcall hne =>
    obtain ⟨rfl, rfl⟩ : mu = mu' ∧ id = id' := by simpa [hcalls] using hcall
    obtain ⟨l, hl, hlid⟩ := inLock_recorded (h.inv.valid t) mu id hroom
    refine ⟨hs', h.ignoreLock, h.ignoreUnlock, by simp, fun _ hn => ?_, by simp, ?_, ?_⟩
    · have hlen : 0 < (updateLockHistoryInLock mu id (s.held t)).entries.length :=
        List.length_pos_of_mem hl
      have hvalid := hs'.valid t
      simp only [Function.update_self] at hvalid hn
      rw [← hvalid.n_eq, hn] at hlen
      exact absurd hlen (lt_irrefl 0)
    · intro hdeleted
      obtain ⟨es, hes, hcounts⟩ := h.recorded hdeleted
      have hlive := hlive.resolve_right (by simpa using hdeleted)
      refine ⟨acquire maxLocks mu es, ?_, hcounts.acquire mu (Or.inr ?_)⟩
      · unfold Core.Holds
        simp only [Function.update_self]
        exact hes.inLock h.inv hlive
      · have hlen : (s.held t).entries.length = es.length := hes.length_eq
        rw [← hlen, ← (h.inv.valid t).n_eq]
        omega
    · intro hdeleted
      refine Or.inl ?_
      simp only [Function.update_self]
      obtain ⟨l', hl', hretired⟩ | ⟨-, call, calls', -, hcall', hretired⟩ := h.stale hdeleted
      · obtain ⟨l'', hl'', heq⟩ := inLock_keeps (h.inv.valid t) hl'
        exact ⟨l'', hl'', heq ▸ hretired⟩
      · obtain ⟨rfl, -⟩ : (mu, id) = call ∧ calls = calls' := by simpa [hcalls] using hcall'
        exact ⟨l, hl, hlid ▸ hretired⟩

theorem afterLock (h : Uses maxLocks t s u)
    (heffect : Core.Effect maxLocks s t now (.afterLock mu) s') (hidle : u.acquiring = none) :
    Uses maxLocks t s' { u with
      acquired := Function.update u.acquired mu (u.acquired mu - 1) } := by
  have hs' := heffect.inv h.inv
  have hdisarmed := heffect.disarmed h.ignoreUnlock
  obtain ⟨hlock, hunlock⟩ : s'.ignoreLock t = 0 ∧ s'.ignoreUnlock t = 0 := by
    cases heffect with
    | unlockIgnored hpos => exact absurd h.ignoreUnlock (Nat.pos_iff_ne_zero.mp hpos)
    | unlock | unlockError => exact ⟨h.ignoreLock, h.ignoreUnlock⟩
  refine ⟨hs', hlock, hunlock, by simp [hidle], fun _ => hdisarmed, by simp [hidle], ?_, ?_⟩
  · intro hdeleted
    obtain ⟨es, hes, hcounts⟩ := h.recorded hdeleted
    exact ⟨_, (heffect.left h.inv h.ignoreUnlock hes).holds, hcounts.release mu⟩
  · intro hdeleted
    obtain ⟨l, hl, hretired⟩ := h.stale_entry hidle hdeleted
    refine Or.inl ?_
    cases heffect with
    | unlockIgnored hpos => exact absurd h.ignoreUnlock (Nat.pos_iff_ne_zero.mp hpos)
    | @unlock _ id g held' _ hid hafter =>
      have hgot := h.inv.clean.getId_arc hid
      have hne : l.id ≠ id := by
        rintro rfl
        exact (hgot.retired _ hretired).not_live hgot.clean.toIndexed hgot.self
      obtain ⟨l', hl', heq⟩ := afterLock_keeps (h.inv.valid t) hafter hl hne
      exact ⟨l', by simpa using hl', heq ▸ hgot.retired _ hretired⟩
    | @unlockError _ id g _ _ hid hafter =>
      have hgot := h.inv.clean.getId_arc hid
      exact ⟨l, by simpa using hl, hgot.retired _ hretired⟩

/-- One hook of any thread. -/
theorem step {t' : ThreadId} {hook : Hook} {u' : Usage} (h : Uses maxLocks t s u)
    (hroom : t' = t → hook.isBeforeLock = true → (s.held t).n < maxLocks)
    (heffect : Core.Effect maxLocks s t' now hook s')
    (husage : u.step t ⟨t', hook, now⟩ = some u') : Uses maxLocks t s' u' := by
  by_cases hdelete : ∃ mu, hook = .deleteLock mu
  · obtain ⟨mu, rfl⟩ := hdelete
    obtain rfl := Option.some.inj husage
    exact h.delete heffect
  have hhook : ∀ p, hook ≠ .deleteLock p := not_exists.mp hdelete
  by_cases ht : t' = t
  · subst ht
    cases hook with
    | deleteLock mu => exact absurd rfl (hhook mu)
    | beforeLock mu =>
      simp only [Usage.step, ne_eq, not_true_eq_false, if_false] at husage
      split_ifs at husage with hidle
      obtain rfl := Option.some.inj husage
      exact h.beforeLock heffect hidle (hroom rfl rfl)
    | inLock call =>
      cases call with
      | succ call => simp [Usage.step] at husage
      | zero =>
        simp only [Usage.step, ne_eq, not_true_eq_false, if_false, Option.map_eq_some_iff] at husage
        obtain ⟨mu, hmu, rfl⟩ := husage
        exact h.inLock heffect hmu
    | afterLock mu =>
      simp only [Usage.step, ne_eq, not_true_eq_false, if_false] at husage
      split_ifs at husage with hidle
      obtain rfl := Option.some.inj husage
      exact h.afterLock heffect hidle.1
    | beforeTryLock | cndWait | increaseIgnoreCounter | setOptions | threadDelete =>
      simp [Usage.step] at husage
  · have hsame : u' = u := by
      cases hook with
      | deleteLock mu => exact absurd rfl (hhook mu)
      | inLock call => cases call <;> simpa [Usage.step, ht, eq_comm] using husage
      | _ => simpa [Usage.step, ht, eq_comm] using husage
    rw [hsame]
    exact h.other heffect (Ne.symm ht) hhook

theorem initial (maxLocks : Nat) (t : ThreadId) : Uses maxLocks t (Config.core maxLocks {}) {} := by
  refine ⟨Core.inv_initial maxLocks, rfl, rfl, by simp, fun _ _ => rfl, by simp, fun _ => ?_,
    by simp⟩
  refine ⟨[], ?_, Counts.nil⟩
  simp [Core.Holds, Records, Config.core, locksHeld, SynchLocksHeld.new, SynchLocksHeld.entries]

end Uses

namespace Config

/-- The thread has no recorded lock, and the watchdog is disarmed. -/
structure Empty (held : SynchLocksHeld) : Prop where
  n : held.n = 0
  cleared : ∀ l ∈ held.locks, l = .cleared
  disarmed : held.lockStartTimePoint = 0

/-- A thread that has left everything has an empty history if and only if no lock was
deleted between the before-hook of an acquisition and its leave. -/
theorem released_iff {maxLocks : Nat} {t : ThreadId} {es : List Event} {c : Config} {u : Usage}
    (hrun : exec (step maxLocks) {} es = some c) (husage : exec (Usage.step t) {} es = some u)
    (hroom : Along (BelowMax maxLocks t) (step maxLocks) {} es) (hdone : u.Done) :
    Empty (c.monitor.locksHeld maxLocks t) ↔ u.deletedInUse = false := by
  have hstep : ∀ c u e c' u', Uses maxLocks t (core maxLocks c) u → BelowMax maxLocks t c e →
      step maxLocks c e = some c' → Usage.step t u e = some u' →
        Uses maxLocks t (core maxLocks c') u' :=
    fun c u e c' u' h hroom hstep husage => h.step hroom (step_effect hstep) husage
  have huses : Uses maxLocks t (core maxLocks c) u :=
    exec_pair hstep (Uses.initial maxLocks t) hrun husage hroom
  have hvalid := huses.inv.valid t
  constructor
  · intro hempty
    by_contra hdeleted
    obtain ⟨l, hl, -⟩ := huses.stale_entry hdone.1 (by simpa using hdeleted)
    have hpos := List.length_pos_of_mem hl
    rw [← hvalid.n_eq] at hpos
    exact absurd hempty.n hpos.ne'
  · intro hdeleted
    obtain ⟨es, hes, hcounts⟩ := huses.recorded hdeleted
    obtain rfl := hcounts.eq_nil hdone.2
    have hnil : ((core maxLocks c).held t).entries = [] := List.forall₂_nil_right_iff.mp hes
    have hn : ((core maxLocks c).held t).n = 0 := by
      rw [hvalid.n_eq, hnil]
      rfl
    refine ⟨hn, fun l hl => ?_, huses.disarmed hdone.1 hn⟩
    have hdrop := hvalid.drop_locks
    rw [hn, List.drop_zero] at hdrop
    exact List.eq_of_mem_replicate (hdrop ▸ hl)

/-- A thread leaves a lock that it has deleted while it held it. -/
def deleteHeld : List Event :=
  [⟨1, .beforeLock 16, 1⟩, ⟨1, .inLock 0, 1⟩, ⟨1, .deleteLock 16, 1⟩, ⟨1, .afterLock 16, 1⟩]

theorem exec_deleteHeld : ∃ c u, exec (step 20) {} deleteHeld = some c ∧
    exec (Usage.step 1) {} deleteHeld = some u ∧
    Along (BelowMax 20 1) (step 20) {} deleteHeld ∧ u.Done ∧ (c.monitor.locksHeld 20 1).n = 1 := by
  have hcomputed : ∃ c, exec (step 20) {} deleteHeld = some c ∧ (c.monitor.locksHeld 20 1).n = 1 :=
    exists_exec (by decide +kernel)
  obtain ⟨c, hrun, hn⟩ := hcomputed
  refine ⟨c, _, hrun, rfl, by decide +kernel, ⟨rfl, fun mu => ?_⟩, hn⟩
  by_cases hmu : mu = 16 <;> simp [hmu]

theorem released_not_empty : ¬ ∀ maxLocks t es c u, exec (step maxLocks) {} es = some c →
    exec (Usage.step t) {} es = some u → Along (BelowMax maxLocks t) (step maxLocks) {} es →
    u.Done → Empty (c.monitor.locksHeld maxLocks t) := by
  intro h
  obtain ⟨c, u, hrun, husage, hroom, hdone, hn⟩ := exec_deleteHeld
  have hempty := h 20 1 deleteHeld c u hrun husage hroom hdone
  exact absurd (hempty.n.symm.trans hn) (by decide)

theorem released_iff_sample : ∃ c u, exec (step 20) {} deleteHeld = some c ∧
    exec (Usage.step 1) {} deleteHeld = some u ∧
    (Empty (c.monitor.locksHeld 20 1) ↔ u.deletedInUse = false) := by
  obtain ⟨c, u, hrun, husage, hroom, hdone, -⟩ := exec_deleteHeld
  exact ⟨c, u, hrun, husage, released_iff hrun husage hroom hdone⟩

end Config
end CppGuard
