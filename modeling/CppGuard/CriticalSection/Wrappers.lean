import CppGuard.CriticalSection.Calls

/-!
# Wrappers, whatever the operating system does

`World` without the locks of the operating system: a call of it may return at any time and with
any result, so that a thread may leave a lock that it does not own. Between two wrappers a
thread may call the functions that are not wrappers, too. The wrappers of `std::mutex` in
`mutex_monitor.cpp` make the same steps.
-/
namespace CppGuard
open Transition ThreadHistory DeadlockMonitor

/-- The hooks that are called by the wrappers only. -/
def Hook.isWrapped : Hook → Bool
  | .beforeLock _ | .beforeTryLock _ | .inLock _ | .afterLock _ | .deleteLock _ => true
  | .cndWait | .increaseIgnoreCounter _ _ | .setOptions _ | .threadDelete => false

structure Wrappers where
  config : Config := {}
  position : ThreadId → Position := fun _ => .idle

namespace Wrappers

/-- A step of a wrapper, or a call of another function. -/
inductive Label where
  | wrapper (action : Action)
  | other (hook : Hook)
  deriving DecidableEq, Repr

structure Step where
  thread : ThreadId
  label : Label
  now : Nat := 1
  deriving DecidableEq, Repr

abbrev core (maxLocks : Nat) (w : Wrappers) : Core := w.config.core maxLocks

/-- A thread has called a hook and stands at `p`. -/
def hooked (w : Wrappers) (t : ThreadId) (p : Position) (c : Config) : Wrappers where
  config := c
  position := Function.update w.position t p

/-- The operating system has returned, and the thread stands at `p`. -/
def returned (w : Wrappers) (t : ThreadId) (p : Position) : Wrappers :=
  { w with position := Function.update w.position t p }

def step (maxLocks : Nat) (w : Wrappers) (s : Step) : Option Wrappers :=
  let t := s.thread
  let call (hook : Hook) := w.config.step maxLocks ⟨t, hook, s.now⟩
  match s.label, w.position t with
  | .wrapper (.enter mu), .idle =>
    (call (.beforeLock mu)).map fun c => w.hooked t (.entering mu (c.lastId t)) c
  | .wrapper (.tryEnter mu), .idle =>
    (call (.beforeTryLock mu)).map fun c => w.hooked t (.trying mu (c.lastId t)) c
  | .wrapper (.leave mu), .idle => (call (.afterLock mu)).map (w.hooked t (.leaving mu))
  | .wrapper (.delete mu), .idle => (call (.deleteLock mu)).map (w.hooked t .idle)
  | .wrapper .enterReturns, .entering mu id => some (w.returned t (World.acquired mu id))
  | .wrapper (.tryEnterReturns true), .trying mu id => some (w.returned t (World.acquired mu id))
  | .wrapper (.tryEnterReturns false), .trying _ _ => some (w.returned t .idle)
  | .wrapper .inLock, .entered _ _ => (call (.inLock 0)).map (w.hooked t .idle)
  | .wrapper .leaveReturns, .leaving _ => some (w.returned t .idle)
  | .other hook, .idle => if hook.isWrapped then none else (call hook).map (w.hooked t .idle)
  | _, _ => none

/-- What a step can be. -/
inductive Does (maxLocks : Nat) (w : Wrappers) (t : ThreadId) (now : Nat) :
    Label → Wrappers → Prop
  | enter {mu c} : w.position t = .idle →
      w.config.step maxLocks ⟨t, .beforeLock mu, now⟩ = some c →
      Does maxLocks w t now (.wrapper (.enter mu)) (w.hooked t (.entering mu (c.lastId t)) c)
  | tryEnter {mu c} : w.position t = .idle →
      w.config.step maxLocks ⟨t, .beforeTryLock mu, now⟩ = some c →
      Does maxLocks w t now (.wrapper (.tryEnter mu)) (w.hooked t (.trying mu (c.lastId t)) c)
  | leave {mu c} : w.position t = .idle →
      w.config.step maxLocks ⟨t, .afterLock mu, now⟩ = some c →
      Does maxLocks w t now (.wrapper (.leave mu)) (w.hooked t (.leaving mu) c)
  | delete {mu c} : w.position t = .idle →
      w.config.step maxLocks ⟨t, .deleteLock mu, now⟩ = some c →
      Does maxLocks w t now (.wrapper (.delete mu)) (w.hooked t .idle c)
  | enterReturns {mu id} : w.position t = .entering mu id →
      Does maxLocks w t now (.wrapper .enterReturns) (w.returned t (World.acquired mu id))
  | tryEnterReturns {mu id} : w.position t = .trying mu id →
      Does maxLocks w t now (.wrapper (.tryEnterReturns true))
        (w.returned t (World.acquired mu id))
  | tryEnterFails {mu id} : w.position t = .trying mu id →
      Does maxLocks w t now (.wrapper (.tryEnterReturns false)) (w.returned t .idle)
  | inLock {mu id c} : w.position t = .entered mu id →
      w.config.step maxLocks ⟨t, .inLock 0, now⟩ = some c →
      Does maxLocks w t now (.wrapper .inLock) (w.hooked t .idle c)
  | leaveReturns {mu} : w.position t = .leaving mu →
      Does maxLocks w t now (.wrapper .leaveReturns) (w.returned t .idle)
  | other {hook c} : w.position t = .idle → hook.isWrapped = false →
      w.config.step maxLocks ⟨t, hook, now⟩ = some c →
      Does maxLocks w t now (.other hook) (w.hooked t .idle c)

variable {maxLocks now : Nat} {w w' : Wrappers} {s : Step} {t u : ThreadId} {label : Label}

theorem step_does (h : step maxLocks w s = some w') :
    Does maxLocks w s.thread s.now s.label w' := by
  obtain ⟨t, label, now⟩ := s
  simp only [step] at h
  split at h
  case h_1 mu hidle =>
    obtain ⟨c, hc, rfl⟩ := Option.map_eq_some_iff.mp h
    exact .enter hidle hc
  case h_2 mu hidle =>
    obtain ⟨c, hc, rfl⟩ := Option.map_eq_some_iff.mp h
    exact .tryEnter hidle hc
  case h_3 mu hidle =>
    obtain ⟨c, hc, rfl⟩ := Option.map_eq_some_iff.mp h
    exact .leave hidle hc
  case h_4 mu hidle =>
    obtain ⟨c, hc, rfl⟩ := Option.map_eq_some_iff.mp h
    exact .delete hidle hc
  case h_5 mu id hentering =>
    obtain rfl := Option.some.inj h
    exact .enterReturns hentering
  case h_6 mu id htrying =>
    obtain rfl := Option.some.inj h
    exact .tryEnterReturns htrying
  case h_7 mu id htrying =>
    obtain rfl := Option.some.inj h
    exact .tryEnterFails htrying
  case h_8 mu id hentered =>
    obtain ⟨c, hc, rfl⟩ := Option.map_eq_some_iff.mp h
    exact .inLock hentered hc
  case h_9 mu hleaving =>
    obtain rfl := Option.some.inj h
    exact .leaveReturns hleaving
  case h_10 hook hidle =>
    split_ifs at h with hwrapped
    obtain ⟨c, hc, rfl⟩ := Option.map_eq_some_iff.mp h
    exact .other hidle (by simpa using hwrapped) hc
  case h_11 => cases h

/-- A step calls a hook of the monitor or none. -/
theorem Does.calls (h : Does maxLocks w t now label w') :
    (∃ hook, w.config.step maxLocks ⟨t, hook, now⟩ = some w'.config) ∨ w'.config = w.config := by
  cases h with
  | enter _ hc | tryEnter _ hc | leave _ hc | delete _ hc | inLock _ hc | other _ _ hc =>
    exact Or.inl ⟨_, hc⟩
  | enterReturns | tryEnterReturns | tryEnterFails | leaveReturns => exact Or.inr rfl

theorem Does.inv (h : Does maxLocks w t now label w') (hs : (w.core maxLocks).Inv maxLocks) :
    (w'.core maxLocks).Inv maxLocks := by
  obtain ⟨hook, hc⟩ | hsame := h.calls
  · exact (Config.step_effect hc).inv hs
  · rw [core, hsame]
    exact hs

/-- Another thread does not change the history of a thread, or where it is. -/
theorem Does.frame (h : Does maxLocks w t now label w') (hu : u ≠ t) :
    w'.position u = w.position u ∧ (w'.core maxLocks).held u = (w.core maxLocks).held u ∧
      (w'.core maxLocks).calls u = (w.core maxLocks).calls u ∧
      (w'.core maxLocks).ignoreLock u = (w.core maxLocks).ignoreLock u ∧
      (w'.core maxLocks).ignoreUnlock u = (w.core maxLocks).ignoreUnlock u := by
  constructor
  · cases h <;> exact Function.update_of_ne hu ..
  · obtain ⟨hook, hc⟩ | hsame := h.calls
    · exact (Config.step_effect hc).frame hu
    · rw [core, hsame]
      exact ⟨rfl, rfl, rfl, rfl⟩

def start (options : RuntimeOptions) : Wrappers where
  config := { monitor := { runtimeOptions := options } }

theorem inv_start (maxLocks : Nat) (options : RuntimeOptions) :
    ((start options).core maxLocks).Inv maxLocks := by
  have hinv := Core.inv_initial maxLocks
  exact ⟨hinv.clean, hinv.valid, hinv.held, hinv.calls⟩

theorem exec_inv {options : RuntimeOptions} {es : List Step}
    (h : exec (step maxLocks) (start options) es = some w) : (w.core maxLocks).Inv maxLocks :=
  exec_invariant (fun _ _ _ hs hstep => (step_does hstep).inv hs) (inv_start maxLocks options) h

end Wrappers

/-! ## The threads with the locks of the operating system -/

namespace World

def wrappers (w : World) : Wrappers := ⟨w.config, w.position⟩

/-- The locks of the operating system only exclude steps. -/
theorem step_wrappers {maxLocks : Nat} {w w' : World} {a : Act}
    (h : step maxLocks w a = some w') :
    w.wrappers.step maxLocks ⟨a.thread, .wrapper a.action, a.now⟩ = some w'.wrappers := by
  have hmove := step_moves h
  obtain ⟨t, action, now⟩ := a
  cases hmove with
  | enter hidle hc | tryEnter hidle hc | leave hidle hc | delete hidle hc | inLock hidle hc =>
    simp only [Wrappers.step, wrappers, hidle, hc, Option.map_some]
    rfl
  | enterReturns hp | tryEnterReturns hp | tryEnterFails hp | leaveReturns hp =>
    simp only [Wrappers.step, wrappers, hp]
    rfl

theorem exec_wrappers {maxLocks : Nat} {w w' : World} {as : List Act}
    (h : exec (step maxLocks) w as = some w') :
    exec (Wrappers.step maxLocks) w.wrappers
      (as.map fun a => ⟨a.thread, .wrapper a.action, a.now⟩) = some w'.wrappers := by
  induction as generalizing w with
  | nil =>
    obtain rfl := Option.some.inj h
    rfl
  | cons a as ih =>
    obtain ⟨u, hu, has⟩ := exec_cons.mp h
    exact exec_cons.mpr ⟨_, step_wrappers hu, ih has⟩

end World
end CppGuard
