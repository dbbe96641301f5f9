import CppGuard.CriticalSection.Wrappers

/-!
# Acquisitions at the limit of the history

`dlc_deadlock_check_before_lock` refuses a lock for which the history has no room, and reports
that. `dlc_deadlock_check_before_try_lock` does not ask: if the lock needs a new entry and there
is none, the acquisition is dropped where it should be recorded.
-/
namespace CppGuard
open Transition ThreadHistory DeadlockMonitor

namespace Core

variable {maxLocks : Nat} {s : Core} {t : ThreadId} {mu : Addr} {id : GraphId} {g : Rep}
  {held : SynchLocksHeld} {l : LockT}

/-- An entry with the id of a lock is that of the lock. -/
theorem Inv.mu_of_entry (hs : s.Inv maxLocks) (hkeeps : Rep.Keeps s.graph g)
    (hself : g.Live id mu) (hl : l ∈ (s.held t).entries) (hid : l.id = id) : l.mu = some mu := by
  obtain ⟨p, hp, hissued⟩ := hs.held t l hl
  obtain hlive | hretired := hkeeps.issued l.id p hissued
  · rw [hp, hlive.addr_inj hkeeps.clean.toIndexed (hid ▸ hself)]
  · exact absurd (hid ▸ hself) (hretired.not_live hkeeps.clean.toIndexed)

/-- An acquisition for which there is room is recorded under its lock. -/
theorem Inv.recorded_once_more (hs : s.Inv maxLocks) (hkeeps : Rep.Keeps s.graph g)
    (hself : g.Live id mu) (hentries : held.entries = (s.held t).entries)
    (hvalid : held.Valid maxLocks) (haccepts : held.Accepts maxLocks id) :
    ∃ l ∈ (updateLockHistoryInLock mu id held).entries,
      l.mu = some mu ∧ l.count = (s.held t).recorded l.id + 1 := by
  obtain ⟨l, hl, hid⟩ : ∃ l ∈ (updateLockHistoryInLock mu id held).entries, l.id = id := by
    obtain hroom | ⟨l₀, hl₀, hid₀⟩ := haccepts
    · exact inLock_recorded hvalid mu id hroom
    · have hkept : ∃ l ∈ (updateLockHistoryInLock mu id held).entries, l.id = l₀.id :=
        inLock_keeps hvalid hl₀
      exact hid₀ ▸ hkept
  refine ⟨l, hl, ?_, ?_⟩
  · obtain ⟨hmu, -⟩ | ⟨l₀, hl₀, hid₀, hmu⟩ := mem_inLock hvalid hl
    · exact hmu
    · rw [← hmu]
      exact hs.mu_of_entry hkeeps hself (hentries ▸ hl₀) (hid₀.trans hid)
  · rw [← SynchLocksHeld.recorded_of_mem (valid_inLock hvalid mu id) hl,
      SynchLocksHeld.recorded_inLock hvalid mu haccepts, if_pos hid.symm,
      SynchLocksHeld.recorded_congr hentries]

end Core

namespace Wrappers

/-- The counter of the lock is greater by one than it was. -/
def AcquisitionRecorded (maxLocks : Nat) (t : ThreadId) (mu : Addr) (w w' : Wrappers) : Prop :=
  ∃ l ∈ (w'.config.monitor.locksHeld maxLocks t).entries, l.mu = some mu ∧
    l.count = (w.config.monitor.locksHeld maxLocks t).recorded l.id + 1

/-- It was reported that the history of the thread is full. -/
def LimitReported (t : ThreadId) (mu : Addr) (w w' : Wrappers) : Prop :=
  w'.config.monitor.otherErrorsFound = true ∧
    ∃ new, w'.config.monitor.processedErrors = w.config.monitor.processedErrors ++ new ∧
      ∃ n, (.maxLocksPerThreadReached n t mu, false) ∈ new

/-- `update_lock_history_in_lock` does not run into `assert(false)`. -/
def SlotGuaranteed (maxLocks : Nat) (t : ThreadId) (w : Wrappers) (s : Step) : Prop :=
  s.thread = t → s.label = .wrapper .inLock → ∀ mu id, w.position t = .entered mu id →
    (w.config.monitor.locksHeld maxLocks t).Accepts maxLocks id

/-- The thread calls a wrapper that acquires a lock. -/
def Step.Acquires (t : ThreadId) (mu : Addr) (s : Step) : Prop :=
  s.thread = t ∧ (s.label = .wrapper (.enter mu) ∨ s.label = .wrapper (.tryEnter mu))

/-- The thread goes on in a wrapper that acquires a lock, with success. -/
def Step.Succeeds (t : ThreadId) (s : Step) : Prop :=
  s.thread = t → s.label ∈ [Label.wrapper .enterReturns, .wrapper (.tryEnterReturns true),
    .wrapper .inLock]

variable {maxLocks now : Nat} {w w₁ w' : Wrappers} {s : Step} {ss : List Step} {t : ThreadId}
  {label : Label} {mu : Addr} {id : GraphId} {held : SynchLocksHeld}

/-! ## The end of a wrapper -/

/-- The thread is in a wrapper, or has left it with the lock recorded. -/
structure Acquiring (maxLocks : Nat) (t : ThreadId) (mu : Addr) (id : GraphId)
    (held : SynchLocksHeld) (w : Wrappers) : Prop where
  progress : (w.position t).pending = some (mu, id) ∧ (w.core maxLocks).held t = held ∧
      (∃ calls, (w.core maxLocks).calls t = (mu, id) :: calls) ∨
    w.position t = .idle ∧ (w.core maxLocks).held t = updateLockHistoryInLock mu id held

theorem Acquiring.step (h : Acquiring maxLocks t mu id held w) (hs : s.Succeeds t)
    (hdoes : Does maxLocks w s.thread s.now s.label w') : Acquiring maxLocks t mu id held w' := by
  by_cases hu : t = s.thread
  · subst hu
    have hlabel := hs rfl
    refine ⟨?_⟩
    obtain ⟨hpending, hheld, hcalls⟩ | ⟨hidle, -⟩ := h.progress
    · obtain ⟨t, label, now⟩ := s
      simp only at hpending hheld hcalls hlabel hdoes ⊢
      cases hdoes with
      | @enterReturns mu' id' hp | @tryEnterReturns mu' id' hp =>
        rw [hp, Position.pending] at hpending
        split_ifs at hpending with hid
        obtain ⟨rfl, rfl⟩ := Prod.mk.inj (Option.some.inj hpending)
        refine Or.inl ⟨?_, hheld, hcalls⟩
        have hposition : (w.returned t (World.acquired mu' id')).position t =
            World.acquired mu' id' := Function.update_self ..
        rw [hposition, World.acquired, if_neg hid]
        rfl
      | @inLock _ _ c _ hstep =>
        obtain ⟨calls, hcalls⟩ := hcalls
        refine Or.inr ⟨Function.update_self .., ?_⟩
        have heffect := Config.step_effect hstep
        change (c.core maxLocks).held t = _
        generalize c.core maxLocks = s' at heffect ⊢
        cases heffect with
        | inLock hcall =>
          rw [hcalls, List.getElem?_cons_zero, Option.some.injEq, Prod.mk.injEq] at hcall
          obtain ⟨rfl, rfl⟩ := hcall
          simp only [Function.update_self]
          rw [hheld]
      | _ => simp at hlabel
    · obtain ⟨t, label, now⟩ := s
      cases hdoes with
      | enterReturns hp | tryEnterReturns hp | inLock hp => cases hidle.symm.trans hp
      | _ => simp at hlabel
  · obtain ⟨hposition, hheld, hcalls, -, -⟩ := hdoes.frame hu
    refine ⟨?_⟩
    rw [hposition, hheld, hcalls]
    exact h.progress

/-- What is passed to `update_lock_history_in_lock` is the history that the wrapper began with. -/
theorem Acquiring.slotGuaranteed (h : Acquiring maxLocks t mu id held w)
    (haccepts : held.Accepts maxLocks id) : SlotGuaranteed maxLocks t w s := by
  intro _ _ mu' id' hp
  obtain ⟨hpending, hheld, -⟩ | ⟨hidle, -⟩ := h.progress
  · rw [hp] at hpending
    obtain ⟨-, rfl⟩ := Prod.mk.inj (Option.some.inj hpending)
    change ((w.core maxLocks).held t).Accepts maxLocks id'
    rw [hheld]
    exact haccepts
  · cases hidle.symm.trans hp

/-- The end of a wrapper whose before-hook has returned an id. -/
theorem Acquiring.finish (h : Acquiring maxLocks t mu id held w) (hs : ∀ s ∈ ss, s.Succeeds t)
    (hrun : exec (Wrappers.step maxLocks) w ss = some w') (hidle : w'.position t = .idle) :
    (w'.core maxLocks).held t = updateLockHistoryInLock mu id held ∧
      (held.Accepts maxLocks id →
        Along (SlotGuaranteed maxLocks t) (Wrappers.step maxLocks) w ss) := by
  have hstep : ∀ w, ∀ s ∈ ss, ∀ w', Acquiring maxLocks t mu id held w →
      Wrappers.step maxLocks w s = some w' → Acquiring maxLocks t mu id held w' :=
    fun w s hmem w' h hstep => h.step (hs s hmem) (step_does hstep)
  refine ⟨?_, fun haccepts => ?_⟩
  · obtain ⟨hpending, -⟩ | ⟨-, hheld⟩ := (exec_invariant_of_mem hstep h hrun).progress
    · rw [hidle] at hpending
      cases hpending
    · exact hheld
  · exact along_of_invariant (P := fun _ _ => True)
      (fun w s _ w' h _ => h.slotGuaranteed haccepts)
      (fun w s hmem w' h _ => hstep w s hmem w' h) h hrun (along_of_mem fun _ _ _ => trivial)

/-- The thread is in a wrapper whose before-hook was refused, or has left it. -/
def Refused (t : ThreadId) (mu : Addr) (w : Wrappers) : Prop :=
  w.position t = .entering mu invalidGraphId ∨ w.position t = .idle

theorem Refused.step (h : Refused t mu w) (hs : s.Succeeds t)
    (hdoes : Does maxLocks w s.thread s.now s.label w') : Refused t mu w' := by
  by_cases hu : t = s.thread
  · subst hu
    have hlabel := hs rfl
    obtain ⟨t, label, now⟩ := s
    cases hdoes with
    | @enterReturns mu' id' hp =>
      refine Or.inr ?_
      obtain hentering | hidle := h
      · obtain ⟨rfl, rfl⟩ := Position.entering.inj (hp.symm.trans hentering)
        exact Function.update_self ..
      · cases hidle.symm.trans hp
    | tryEnterReturns hp | inLock hp => obtain h | h := h <;> cases h.symm.trans hp
    | _ => simp at hlabel
  · unfold Refused
    rw [(hdoes.frame hu).1]
    exact h

theorem Refused.slotGuaranteed (h : Refused t mu w) (hs : ∀ s ∈ ss, s.Succeeds t)
    (hrun : exec (Wrappers.step maxLocks) w ss = some w') :
    Along (SlotGuaranteed maxLocks t) (Wrappers.step maxLocks) w ss := by
  refine along_of_invariant (I := Refused t mu) (P := fun _ _ => True)
    (fun w s _ w' h _ _ _ mu' id' hp => ?_)
    (fun w s hmem w' h _ hstep => h.step (hs s hmem) (step_does hstep)) h hrun
    (along_of_mem fun _ _ _ => trivial)
  obtain h | h := h <;> cases h.symm.trans hp

/-! ## Reports -/

/-- Reports are never taken back, and only a blocking call reports a full history. -/
theorem Does.limit (h : Does maxLocks w t now label w') : ∃ new,
    (w'.core maxLocks).errors = (w.core maxLocks).errors ++ new ∧
      ∀ n u q b, (Report.maxLocksPerThreadReached n u q, b) ∈ new →
        u = t ∧ label = .wrapper (.enter q) := by
  have hook : ∀ {hook c}, w.config.step maxLocks ⟨t, hook, now⟩ = some c → ∃ new,
      (c.core maxLocks).errors = (w.core maxLocks).errors ++ new ∧
        ∀ n u q b, (Report.maxLocksPerThreadReached n u q, b) ∈ new →
          u = t ∧ hook = .beforeLock q := fun hstep => (Config.step_effect hstep).limit
  cases h with
  | enter _ hstep =>
    obtain ⟨new, hnew, honly⟩ := hook hstep
    refine ⟨new, hnew, fun n u q b hmem => ?_⟩
    obtain ⟨hu, hq⟩ := honly n u q b hmem
    exact ⟨hu, by rw [Hook.beforeLock.inj hq]⟩
  | tryEnter _ hstep | leave _ hstep | delete _ hstep | inLock _ hstep =>
    obtain ⟨new, hnew, honly⟩ := hook hstep
    refine ⟨new, hnew, fun n u q b hmem => ?_⟩
    cases (honly n u q b hmem).2
  | other _ hwrapped hstep =>
    obtain ⟨new, hnew, honly⟩ := hook hstep
    refine ⟨new, hnew, fun n u q b hmem => ?_⟩
    rw [(honly n u q b hmem).2] at hwrapped
    cases hwrapped
  | enterReturns | tryEnterReturns | tryEnterFails | leaveReturns =>
    exact ⟨[], (List.append_nil _).symm, by simp⟩

theorem Does.otherErrorsFound_mono (h : Does maxLocks w t now label w')
    (hflag : (w.core maxLocks).otherErrorsFound = true) :
    (w'.core maxLocks).otherErrorsFound = true := by
  obtain ⟨hook, hc⟩ | hsame := h.calls
  · exact (Config.step_effect hc).otherErrorsFound_mono hflag
  · rw [core, hsame]
    exact hflag

/-- While a thread goes on in a wrapper, no full history of it is reported. -/
theorem exec_limit (hs : ∀ s ∈ ss, s.Succeeds t)
    (hrun : exec (step maxLocks) w ss = some w') : ∃ new,
    (w'.core maxLocks).errors = (w.core maxLocks).errors ++ new ∧
      ∀ n q b, (Report.maxLocksPerThreadReached n t q, b) ∉ new := by
  refine exec_invariant_of_mem (P := fun w' => ∃ new,
    (w'.core maxLocks).errors = (w.core maxLocks).errors ++ new ∧
      ∀ n q b, (Report.maxLocksPerThreadReached n t q, b) ∉ new) ?_
    ⟨[], (List.append_nil _).symm, by simp⟩ hrun
  rintro w₁ s hmem w₂ ⟨new, hnew, hnone⟩ hstep
  obtain ⟨more, hmore, honly⟩ := (step_does hstep).limit
  refine ⟨new ++ more, by rw [hmore, hnew, List.append_assoc], fun n q b hin => ?_⟩
  obtain hin | hin := List.mem_append.mp hin
  · exact hnone n q b hin
  · obtain ⟨hu, hlabel⟩ := honly n t q b hin
    have := hs s hmem hu.symm
    simp [hlabel] at this

theorem exec_otherErrorsFound (hflag : (w.core maxLocks).otherErrorsFound = true)
    (hrun : exec (step maxLocks) w ss = some w') :
    (w'.core maxLocks).otherErrorsFound = true :=
  exec_invariant (P := fun w => (w.core maxLocks).otherErrorsFound = true)
    (fun _ _ _ h hstep => (step_does hstep).otherErrorsFound_mono h) hflag hrun

/-! ## One acquisition -/

section Acquisition

variable {c : Config}

/-- The first step of a wrapper does not run `update_lock_history_in_lock`. -/
theorem along_slotGuaranteed_cons (t : ThreadId) (ss : List Step)
    (hlabel : s.label ≠ .wrapper .inLock)
    (hstep : step maxLocks w s = some w₁)
    (h : Along (SlotGuaranteed maxLocks t) (step maxLocks) w₁ ss) :
    Along (SlotGuaranteed maxLocks t) (step maxLocks) w (s :: ss) := by
  simp only [Along, hstep]
  exact ⟨fun _ hin => absurd hin hlabel, h⟩

theorem acquiring_hooked {p : Position} (hp : p.pending = some (mu, id))
    (hcalls : (c.core maxLocks).calls = ((w.core maxLocks).called t mu id).calls) :
    Acquiring maxLocks t mu id ((c.core maxLocks).held t) (w.hooked t p c) := by
  refine ⟨Or.inl ⟨?_, rfl, _, (congrFun hcalls t).trans (Function.update_self ..)⟩⟩
  rw [show (w.hooked t p c).position t = p from Function.update_self ..]
  exact hp

theorem accepts_arm (now : Nat) {held : SynchLocksHeld} :
    (arm now held).Accepts maxLocks id ↔ held.Accepts maxLocks id := by
  unfold SynchLocksHeld.Accepts
  rw [entries_arm]
  unfold arm
  split_ifs <;> rfl

/-- Through `Enter`, with room. -/
theorem enter_limit_room (hs : (w.core maxLocks).Inv maxLocks)
    (hroom : ((w.core maxLocks).held t).n < maxLocks)
    (hignore : (w.core maxLocks).ignoreLock t = 0)
    (hstep : w.config.step maxLocks ⟨t, .beforeLock mu, now⟩ = some c)
    (hsucceeds : ∀ s ∈ ss, s.Succeeds t)
    (hrun : exec (step maxLocks) (w.hooked t (.entering mu (c.lastId t)) c) ss = some w')
    (hidle' : w'.position t = .idle) : AcquisitionRecorded maxLocks t mu w w' ∧
      Along (SlotGuaranteed maxLocks t) (step maxLocks)
        (w.hooked t (.entering mu (c.lastId t)) c) ss := by
  obtain ⟨id, refused, hasked⟩ := (Config.step_effect hstep).asked hs hignore hroom
  have hne := hasked.entered.self.ne_invalid hasked.entered.keeps.clean.toIndexed
  have hpending : (Position.entering mu (c.lastId t)).pending = some (mu, id) := by
    rw [Config.lastId_of_called hasked.calls, Position.pending, if_neg hne]
  have hheld : (c.core maxLocks).held t = arm now ((w.core maxLocks).held t) := by
    rw [hasked.held, Function.update_self]
  have haccepts : ((c.core maxLocks).held t).Accepts maxLocks id :=
    hheld ▸ (accepts_arm now).mpr (Or.inl hroom)
  obtain ⟨hdone, halong⟩ :=
    (acquiring_hooked hpending hasked.calls).finish hsucceeds hrun hidle'
  refine ⟨?_, halong haccepts⟩
  have hrecorded := hs.recorded_once_more (t := t) hasked.entered.keeps hasked.entered.self
    (by rw [hheld, entries_arm]) (hheld ▸ (hs.valid t).arm now) haccepts
  rw [← hdone] at hrecorded
  exact hrecorded

/-- Through `Enter`, without room. -/
theorem enter_limit_full (hfull : maxLocks ≤ ((w.core maxLocks).held t).n)
    (hignore : (w.core maxLocks).ignoreLock t = 0)
    (hstep : w.config.step maxLocks ⟨t, .beforeLock mu, now⟩ = some c)
    (hsucceeds : ∀ s ∈ ss, s.Succeeds t)
    (hrun : exec (step maxLocks) (w.hooked t (.entering mu (c.lastId t)) c) ss = some w') :
    LimitReported t mu w w' ∧ Along (SlotGuaranteed maxLocks t) (step maxLocks)
      (w.hooked t (.entering mu (c.lastId t)) c) ss := by
  have heffect := Config.step_effect hstep
  have hcore : c.core maxLocks = { (w.core maxLocks).called t mu invalidGraphId with
      errors := (w.core maxLocks).errors ++
        [(.maxLocksPerThreadReached ((w.core maxLocks).held t).n t mu, false)]
      otherErrorsFound := true } := by
    generalize c.core maxLocks = s' at heffect
    cases heffect with
    | lockIgnored hpos => exact absurd hignore hpos.ne'
    | lockFull => rfl
    | lock _ hroom | lockRefused _ hroom => exact absurd hroom (Nat.not_lt.mpr hfull)
  have hcalls : (c.core maxLocks).calls =
      ((w.core maxLocks).called t mu invalidGraphId).calls := by rw [hcore]
  have hrefused : Refused t mu (w.hooked t (.entering mu (c.lastId t)) c) := by
    rw [Config.lastId_of_called hcalls]
    exact Or.inl (Function.update_self ..)
  have herrors : ((w.hooked t (.entering mu (c.lastId t)) c).core maxLocks).errors =
      (w.core maxLocks).errors ++
        [(.maxLocksPerThreadReached ((w.core maxLocks).held t).n t mu, false)] :=
    congrArg Core.errors hcore
  have hflag : ((w.hooked t (.entering mu (c.lastId t)) c).core maxLocks).otherErrorsFound =
      true := congrArg Core.otherErrorsFound hcore
  obtain ⟨new, hnew, -⟩ := exec_limit hsucceeds hrun
  rw [herrors, List.append_assoc] at hnew
  have hmem := List.mem_append_left new (List.mem_singleton_self
    (Report.maxLocksPerThreadReached ((w.core maxLocks).held t).n t mu, false))
  exact ⟨⟨exec_otherErrorsFound hflag hrun, _, hnew, _, hmem⟩,
    hrefused.slotGuaranteed hsucceeds hrun⟩

/-- Through `TryEnter`. -/
theorem tryEnter_limit (hs : (w.core maxLocks).Inv maxLocks)
    (hstep : w.config.step maxLocks ⟨t, .beforeTryLock mu, now⟩ = some c)
    (hsucceeds : ∀ s ∈ ss, s.Succeeds t)
    (hrun : exec (step maxLocks) (w.hooked t (.trying mu (c.lastId t)) c) ss = some w')
    (hidle' : w'.position t = .idle) :
    (¬ w.config.NoRoomFor maxLocks t mu → AcquisitionRecorded maxLocks t mu w w' ∧
      Along (SlotGuaranteed maxLocks t) (step maxLocks)
        (w.hooked t (.trying mu (c.lastId t)) c) ss) ∧
    (w.config.NoRoomFor maxLocks t mu →
      ¬ AcquisitionRecorded maxLocks t mu w w' ∧ ¬ LimitReported t mu w w') := by
  have heffect := Config.step_effect hstep
  obtain ⟨id, g, hgot, hcore⟩ : ∃ id g, Rep.GotId mu id (w.core maxLocks).graph g ∧
      c.core maxLocks = { (w.core maxLocks).called t mu id with
        graph := g
        held := Function.update (w.core maxLocks).held t (arm now ((w.core maxLocks).held t))
        ignoreLock := Function.update (w.core maxLocks).ignoreLock t
          ((w.core maxLocks).ignoreLock t - 1) } := by
    generalize c.core maxLocks = s' at heffect
    cases heffect with
    | @tryLock _ id g hid => exact ⟨id, g, hs.clean.getId_arc hid, rfl⟩
  have hne := hgot.self.ne_invalid hgot.clean.toIndexed
  have hcalls : (c.core maxLocks).calls = ((w.core maxLocks).called t mu id).calls := by
    rw [hcore]
  have hpending : (Position.trying mu (c.lastId t)).pending = some (mu, id) := by
    rw [Config.lastId_of_called hcalls, Position.pending, if_neg hne]
  have hheld : (c.core maxLocks).held t = arm now ((w.core maxLocks).held t) := by
    rw [hcore]
    exact Function.update_self ..
  have hroom := Config.noRoomFor_iff (t := t) hs hgot
  have hvalid := (hs.valid t).arm now
  obtain ⟨hdone, halong⟩ := (acquiring_hooked hpending hcalls).finish hsucceeds hrun hidle'
  rw [hheld] at hdone halong
  constructor
  · intro hyes
    have haccepts := (accepts_arm now).mpr (not_not.mp (mt hroom.mpr hyes))
    refine ⟨?_, halong haccepts⟩
    have hrecorded := hs.recorded_once_more (t := t) hgot.keeps hgot.self (entries_arm ..) hvalid
      haccepts
    rw [← hdone] at hrecorded
    exact hrecorded
  · intro hno
    have hdropped := mt (accepts_arm now).mp (hroom.mp hno)
    rw [SynchLocksHeld.inLock_dropped hvalid mu hdropped] at hdone
    constructor
    · rintro ⟨l, hl, -, hcount⟩
      have hl' : l ∈ ((w'.core maxLocks).held t).entries := hl
      rw [hdone, entries_arm] at hl'
      have hsame := SynchLocksHeld.recorded_of_mem (hs.valid t) hl'
      change l.count = ((w.core maxLocks).held t).recorded l.id + 1 at hcount
      omega
    · rintro ⟨-, new, hnew, n, hmem⟩
      obtain ⟨new', hnew', hnone⟩ := exec_limit hsucceeds hrun
      have herrors : ((w.hooked t (.trying mu (c.lastId t)) c).core maxLocks).errors =
          (w.core maxLocks).errors := by
        change (c.core maxLocks).errors = _
        rw [hcore]
        rfl
      rw [herrors] at hnew'
      obtain rfl := List.append_cancel_left (hnew.symm.trans hnew')
      exact hnone n mu false hmem

end Acquisition

/-- An acquisition that succeeds is recorded, or reported as being over the limit, without an
assertion that fails, if and only if it does not go through `TryEnter` with a full history that
has no entry for the lock. -/
theorem acquisition_recorded_iff {options : RuntimeOptions} {before : List Step}
    (hbefore : exec (step maxLocks) (start options) before = some w) (hs : s.Acquires t mu)
    (hignore : (w.config.monitor.threadLocals t).ignoreCounterLock = 0)
    (hsucceeds : ∀ s ∈ ss, s.Succeeds t) (hrun : exec (step maxLocks) w (s :: ss) = some w')
    (hidle : w'.position t = .idle) :
    ((AcquisitionRecorded maxLocks t mu w w' ∨ LimitReported t mu w w') ∧
        Along (SlotGuaranteed maxLocks t) (step maxLocks) w (s :: ss)) ↔
      ¬ (s.label = .wrapper (.tryEnter mu) ∧ w.config.NoRoomFor maxLocks t mu) := by
  have hinv := exec_inv hbefore
  obtain ⟨w₁, hstep, hrest⟩ := exec_cons.mp hrun
  have hdoes := step_does hstep
  obtain ⟨rfl, henter | htry⟩ := hs
  · have hlabel : s.label ≠ .wrapper .inLock := by simp [henter]
    have halong := along_slotGuaranteed_cons s.thread ss hlabel hstep
    have hnot : ¬ (s.label = .wrapper (.tryEnter mu) ∧
        w.config.NoRoomFor maxLocks s.thread mu) := by simp [henter]
    refine ⟨fun _ => hnot, fun _ => ?_⟩
    rw [henter] at hdoes
    cases hdoes with
    | enter _ hcall =>
      obtain hroom | hfull := lt_or_ge ((w.core maxLocks).held s.thread).n maxLocks
      · obtain ⟨hrecorded, hslots⟩ :=
          enter_limit_room hinv hroom hignore hcall hsucceeds hrest hidle
        exact ⟨Or.inl hrecorded, halong hslots⟩
      · obtain ⟨hreported, hslots⟩ := enter_limit_full hfull hignore hcall hsucceeds hrest
        exact ⟨Or.inr hreported, halong hslots⟩
  · have hlabel : s.label ≠ .wrapper .inLock := by simp [htry]
    have halong := along_slotGuaranteed_cons s.thread ss hlabel hstep
    simp only [htry, true_and]
    rw [htry] at hdoes
    cases hdoes with
    | tryEnter _ hcall =>
      obtain ⟨hyes, hno⟩ := tryEnter_limit hinv hcall hsucceeds hrest hidle
      constructor
      · rintro ⟨hrecorded | hreported, -⟩ hfull
        · exact (hno hfull).1 hrecorded
        · exact (hno hfull).2 hreported
      · intro hroom
        exact ⟨Or.inl (hyes hroom).1, halong (hyes hroom).2⟩

/-- A thread enters the only lock that it has room for. -/
def fill : List Step :=
  [⟨1, .wrapper (.enter 16), 1⟩, ⟨1, .wrapper .enterReturns, 1⟩, ⟨1, .wrapper .inLock, 1⟩]

/-- It gets another one. -/
def succeed : List Step := [⟨1, .wrapper (.tryEnterReturns true), 1⟩, ⟨1, .wrapper .inLock, 1⟩]

theorem exec_fill : ∃ w w', exec (step 1) (start {}) fill = some w ∧
    exec (step 1) w (⟨1, .wrapper (.tryEnter 32), 1⟩ :: succeed) = some w' ∧
    (w.config.monitor.threadLocals 1).ignoreCounterLock = 0 ∧ w'.position 1 = .idle ∧
    (∀ l ∈ (w'.config.monitor.locksHeld 1 1).entries, l.mu ≠ some 32) ∧
    w'.config.monitor.otherErrorsFound = false := by
  have hcomputed : ((exec (step 1) (start {}) fill).bind fun w =>
      (exec (step 1) w (⟨1, .wrapper (.tryEnter 32), 1⟩ :: succeed)).map fun w' => decide (
        (w.config.monitor.threadLocals 1).ignoreCounterLock = 0 ∧ w'.position 1 = .idle ∧
        (∀ l ∈ (w'.config.monitor.locksHeld 1 1).entries, l.mu ≠ some 32) ∧
        w'.config.monitor.otherErrorsFound = false)) = some true := by
    decide +kernel
  obtain ⟨w, hfill, h⟩ := Option.bind_eq_some_iff.mp hcomputed
  obtain ⟨w', htry, h⟩ := Option.map_eq_some_iff.mp h
  exact ⟨w, w', hfill, htry, of_decide_eq_true h⟩

theorem succeeds_succeed : ∀ s ∈ succeed, s.Succeeds 1 := by
  simp [succeed, Step.Succeeds]

theorem acquisition_not_recorded : ¬ ∀ maxLocks options before t mu s ss w w',
    exec (step maxLocks) (start options) before = some w → s.Acquires t mu →
    (w.config.monitor.threadLocals t).ignoreCounterLock = 0 → (∀ s ∈ ss, s.Succeeds t) →
    exec (step maxLocks) w (s :: ss) = some w' → w'.position t = .idle →
    (AcquisitionRecorded maxLocks t mu w w' ∨ LimitReported t mu w w') ∧
      Along (SlotGuaranteed maxLocks t) (step maxLocks) w (s :: ss) := by
  intro h
  obtain ⟨w, w', hfill, htry, hignore, hidle, hnone, hflag⟩ := exec_fill
  obtain ⟨⟨l, hl, hmu, -⟩ | ⟨hfound, -⟩, -⟩ := h 1 {} fill 1 32 ⟨1, .wrapper (.tryEnter 32), 1⟩
    succeed w w' hfill ⟨rfl, Or.inr rfl⟩ hignore succeeds_succeed htry hidle
  · exact hnone l hl hmu
  · cases hflag.symm.trans hfound

theorem acquisition_recorded_iff_sample : ∃ w w', exec (step 1) (start {}) fill = some w ∧
    ((AcquisitionRecorded 1 1 32 w w' ∨ LimitReported 1 32 w w') ∧
        Along (SlotGuaranteed 1 1) (step 1) w (⟨1, .wrapper (.tryEnter 32), 1⟩ :: succeed) ↔
      ¬ ((Step.mk 1 (.wrapper (.tryEnter 32)) 1).label = .wrapper (.tryEnter 32) ∧
        w.config.NoRoomFor 1 1 32)) := by
  obtain ⟨w, w', hfill, htry, hignore, hidle, -⟩ := exec_fill
  exact ⟨w, w', hfill, acquisition_recorded_iff hfill ⟨rfl, Or.inr rfl⟩ hignore succeeds_succeed
    htry hidle⟩

end Wrappers
end CppGuard
