import CppGuard.CriticalSection.Tracking
import CppGuard.DeadlockMonitor.Progress

/-!
# Recorded ownership is real ownership

If threads release what they own, have room for what they acquire, and delete only what no
thread uses, then the history of a thread agrees with the locks of the operating system:
it counts for every lock the depth of the thread. Between a hook and the call of the
operating system that belongs to it, the depth is ahead by one (`Position.unrecorded`).
-/
namespace CppGuard
open CountedList Transition ThreadHistory DeadlockMonitor

/-- The lock that a thread is about to acquire. -/
def Position.acquiring : Position → Option Addr
  | .entering mu _ | .trying mu _ => some mu
  | .idle | .entered _ _ | .leaving _ => none

namespace World

/-- A thread that asks for a lock has room for it. -/
def HasRoom (maxLocks : Nat) (w : World) (a : Act) : Prop :=
  match a.action with
  | .enter _ | .tryEnter _ => (w.config.monitor.locksHeld maxLocks a.thread).n < maxLocks
  | _ => True

/-- A thread releases only locks that it owns. -/
def LeavesOwned (w : World) (a : Act) : Prop :=
  match a.action with
  | .leave mu => 0 < w.depth a.thread mu
  | _ => True

/-- Only locks are deleted that no thread owns or is about to acquire. -/
def DeletesUnused (w : World) (a : Act) : Prop :=
  ∀ mu, a.action = .delete mu → ∀ t, w.depth t mu = 0 ∧ (w.position t).acquiring ≠ some mu

structure Disciplined (maxLocks : Nat) (w : World) (a : Act) : Prop where
  room : w.HasRoom maxLocks a
  owned : w.LeavesOwned a
  unused : w.DeletesUnused a

instance (maxLocks : Nat) (w : World) (a : Act) : Decidable (w.HasRoom maxLocks a) := by
  unfold HasRoom
  split <;> infer_instance

instance (w : World) (a : Act) : Decidable (w.LeavesOwned a) := by
  unfold LeavesOwned
  split <;> infer_instance

/-! ## The invariant -/

/-- The locks `es` that are recorded for a thread agree with its position and the depths. -/
structure Agrees (maxLocks : Nat) (p : Position) (depth : Addr → Nat) (es : List (Addr × Nat)) :
    Prop where
  counts : ∃ f, Counts es f ∧ ∀ mu, f mu + p.unrecorded mu = depth mu
  room : ∀ mu id, p.pending = some (mu, id) → es.length < maxLocks
  registered : ∀ mu, p.acquiring = some mu → ∃ id, p.pending = some (mu, id)

structure Owning (maxLocks : Nat) (w : World) (held : ThreadId → List (Addr × Nat)) : Prop
    extends Tracking maxLocks w held where
  errors : ∀ e ∈ (w.core maxLocks).errors, e.2 = true
  agrees : ∀ t, Agrees maxLocks (w.position t) (w.depth t) (held t)

namespace Agrees

variable {maxLocks : Nat} {p : Position} {depth : Addr → Nat} {es : List (Addr × Nat)} {mu : Addr}
  {id : GraphId}

/-- A thread that asks for nothing. -/
theorem of_counts (counts : ∃ f, Counts es f ∧ ∀ mu, f mu + p.unrecorded mu = depth mu)
    (hpending : p.pending = none) (hacquiring : p.acquiring = none) :
    Agrees maxLocks p depth es := by
  refine ⟨counts, fun mu id h => ?_, fun mu h => ?_⟩
  · cases hpending.symm.trans h
  · cases hacquiring.symm.trans h

theorem nil (maxLocks : Nat) : Agrees maxLocks .idle (fun _ => 0) [] :=
  .of_counts ⟨fun _ => 0, Counts.nil, fun _ => rfl⟩ rfl rfl

/-- A lock without a depth is not recorded and not about to be recorded. -/
theorem absent (h : Agrees maxLocks p depth es) (hdepth : depth mu = 0)
    (hp : p.acquiring ≠ some mu) : mu ∉ keys es ∧ ∀ id, p.pending ≠ some (mu, id) := by
  obtain ⟨f, hf, hsum⟩ := h.counts
  have hmu := hsum mu
  rw [hdepth] at hmu
  refine ⟨fun hkey => ?_, fun id hpending => ?_⟩
  · have := (hf.mem_keys mu).mp hkey
    omega
  · cases p with
    | entering q x | trying q x => grind [Position.pending, Position.acquiring]
    | entered q x => grind [Position.pending, Position.unrecorded]
    | idle | leaving q => cases hpending

theorem mem_keys (h : Agrees maxLocks .idle depth es) : mu ∈ keys es ↔ 0 < depth mu := by
  obtain ⟨f, hf, hsum⟩ := h.counts
  rw [hf.mem_keys, ← hsum mu]
  rfl

/-- A hook has returned an id to a thread with room. -/
theorem ask (h : Agrees maxLocks .idle depth es) (hroom : es.length < maxLocks)
    (hid : id ≠ invalidGraphId) (hp : p = .entering mu id ∨ p = .trying mu id) :
    Agrees maxLocks p depth es := by
  refine ⟨?_, fun _ _ _ => hroom, fun q hq => ⟨id, ?_⟩⟩
  · obtain rfl | rfl := hp <;> exact h.counts
  · obtain rfl | rfl := hp <;> grind [Position.pending, Position.acquiring]

/-- The operating system has given the lock to the thread. -/
theorem acquire {depth' : Addr → Nat} (h : Agrees maxLocks p depth es)
    (hp : p = .entering mu id ∨ p = .trying mu id)
    (hdepth : ∀ q, depth' q = if q = mu then depth q + 1 else depth q) :
    Agrees maxLocks (acquired mu id) depth' es := by
  have hacquiring : p.acquiring = some mu := by obtain rfl | rfl := hp <;> rfl
  obtain ⟨x, hx⟩ := h.registered mu hacquiring
  have hunrecorded : ∀ q, p.unrecorded q = 0 := by obtain rfl | rfl := hp <;> exact fun _ => rfl
  have hid : id ≠ invalidGraphId := by
    obtain rfl | rfl := hp <;> grind [Position.pending]
  obtain ⟨f, hf, hsum⟩ := h.counts
  rw [acquired, if_neg hid]
  refine ⟨⟨f, hf, fun q => ?_⟩, fun _ _ _ => h.room mu x hx, fun q hq => ?_⟩
  · have := hsum q
    grind [Position.unrecorded]
  · cases hq

theorem record (h : Agrees maxLocks (.entered mu id) depth es) :
    Agrees maxLocks .idle depth (CountedList.acquire maxLocks mu es) := by
  obtain ⟨f, hf, hsum⟩ := h.counts
  have hroom := h.room mu id rfl
  refine .of_counts ⟨_, hf.acquire mu (Or.inr hroom.ne), fun q => ?_⟩ rfl rfl
  have := hsum q
  grind [Position.unrecorded]

theorem leave (h : Agrees maxLocks .idle depth es) (hdepth : 0 < depth mu) :
    Agrees maxLocks (.leaving mu) depth (CountedList.release mu es) := by
  obtain ⟨f, hf, hsum⟩ := h.counts
  refine .of_counts ⟨_, hf.release mu, fun q => ?_⟩ rfl rfl
  have := hsum q
  grind [Position.unrecorded]

theorem release {depth' : Addr → Nat} (h : Agrees maxLocks (.leaving mu) depth es)
    (hdepth : ∀ q, depth' q = if q = mu then depth q - 1 else depth q) :
    Agrees maxLocks .idle depth' es := by
  obtain ⟨f, hf, hsum⟩ := h.counts
  refine .of_counts ⟨f, hf, fun q => ?_⟩ rfl rfl
  have := hsum q
  grind [Position.unrecorded]

/-- `TryEnterCriticalSection` has returned false. -/
theorem fail (h : Agrees maxLocks (.trying mu id) depth es) : Agrees maxLocks .idle depth es :=
  .of_counts h.counts rfl rfl

end Agrees

namespace Owning

variable {maxLocks now : Nat} {w w' : World} {held held' : ThreadId → List (Addr × Nat)}
  {t : ThreadId} {action : Action} {c : Config} {p : Position} {mu : Addr}

theorem start (maxLocks : Nat) (options : RuntimeOptions) :
    Owning maxLocks (World.start options) fun _ => [] :=
  ⟨.start maxLocks options, fun _ he => (List.not_mem_nil he).elim, fun _ => .nil maxLocks⟩

theorem unused (h : Owning maxLocks w held) {a : Act} (hunused : w.DeletesUnused a)
    (haction : a.action = .delete mu) : w.Unused held mu := fun u =>
  (h.agrees u).absent (hunused mu haction u).1 (hunused mu haction u).2

/-- One thread calls a hook. -/
theorem hooked (h : Owning maxLocks w held) (htracking : Tracking maxLocks (w.hooked t p c) held')
    (hheld : ∀ u, u ≠ t → held' u = held u) (herrors : ∀ e ∈ (c.core maxLocks).errors, e.2 = true)
    (own : Agrees maxLocks p (w.depth t) (held' t)) : Owning maxLocks (w.hooked t p c) held' := by
  refine ⟨htracking, herrors, fun u => ?_⟩
  by_cases hu : u = t
  · have hposition : (w.hooked t p c).position t = p := Function.update_self ..
    rw [hu, hposition]
    exact own
  · have hposition : (w.hooked t p c).position u = w.position u := Function.update_of_ne hu ..
    rw [hposition, hheld u hu]
    exact h.agrees u

/-- One thread calls the operating system. -/
theorem locked {m : RecursiveMutex ThreadId} (h : Owning maxLocks w held)
    (htracking : Tracking maxLocks (w.locked t mu p m) held)
    (hdepth : ∀ u, u ≠ t → ∀ q, (w.locked t mu p m).depth u q = w.depth u q)
    (own : Agrees maxLocks p ((w.locked t mu p m).depth t) (held t)) :
    Owning maxLocks (w.locked t mu p m) held := by
  refine ⟨htracking, h.errors, fun u => ?_⟩
  by_cases hu : u = t
  · have hposition : (w.locked t mu p m).position t = p := Function.update_self ..
    rw [hu, hposition]
    exact own
  · have hposition : (w.locked t mu p m).position u = w.position u := Function.update_of_ne hu ..
    rw [hposition, funext (hdepth u hu)]
    exact h.agrees u

theorem enter (h : Owning maxLocks w held) (hidle : w.position t = .idle)
    (hroom : ((w.core maxLocks).held t).n < maxLocks)
    (hstep : w.config.step maxLocks ⟨t, .beforeLock mu, now⟩ = some c) :
    Owning maxLocks (w.hooked t (.entering mu (c.lastId t)) c) held := by
  have own := h.agrees t
  rw [hidle] at own
  have htracking := h.toTracking.enter hstep
  obtain ⟨id, refused, hlocked⟩ := (Config.step_effect hstep).locked h.inv (h.ignoreLock t) hroom
  have hid := hlocked.entered.self.ne_invalid hlocked.entered.keeps.clean.toIndexed
  rw [Config.lastId_of_called hlocked.calls] at htracking ⊢
  refine h.hooked htracking (fun _ _ => rfl) ?_ (own.ask (h.length_eq t ▸ hroom) hid (.inl rfl))
  obtain ⟨-, -, herrors⟩ | ⟨-, -, report, herrors⟩ := hlocked.outcome
  · simp only [herrors]
    exact h.errors
  · intro e he
    simp only [herrors, List.mem_append, List.mem_singleton] at he
    obtain he | rfl := he
    · exact h.errors e he
    · rfl

theorem tryEnter (h : Owning maxLocks w held) (hidle : w.position t = .idle)
    (hroom : ((w.core maxLocks).held t).n < maxLocks)
    (hstep : w.config.step maxLocks ⟨t, .beforeTryLock mu, now⟩ = some c) :
    Owning maxLocks (w.hooked t (.trying mu (c.lastId t)) c) held := by
  have own := h.agrees t
  rw [hidle] at own
  have htracking := h.toTracking.tryEnter hstep
  have heffect := Config.step_effect hstep
  obtain ⟨id, htried⟩ := heffect.tried h.inv
  have hid := htried.live.ne_invalid (heffect.inv h.inv).clean.toIndexed
  rw [Config.lastId_of_called htried.calls] at htracking ⊢
  refine h.hooked htracking (fun _ _ => rfl) ?_ (own.ask (h.length_eq t ▸ hroom) hid (.inr rfl))
  simp only [htried.errors]
  exact h.errors

theorem leave (h : Owning maxLocks w held) (hidle : w.position t = .idle)
    (hdepth : 0 < w.depth t mu)
    (hstep : w.config.step maxLocks ⟨t, .afterLock mu, now⟩ = some c) :
    Owning maxLocks (w.hooked t (.leaving mu) c)
      (Function.update held t (CountedList.release mu (held t))) := by
  have own := h.agrees t
  rw [hidle] at own
  have hleft := (Config.step_effect hstep).left h.inv (h.ignoreUnlock t) (h.holds t)
  refine h.hooked (h.toTracking.leave hstep) (fun u hu => Function.update_of_ne hu ..) ?_ ?_
  · simp only [hleft.errors (own.mem_keys.mpr hdepth)]
    exact h.errors
  · simp only [Function.update_self]
    exact own.leave hdepth

theorem delete (h : Owning maxLocks w held) (hidle : w.position t = .idle)
    (hunused : w.Unused held mu)
    (hstep : w.config.step maxLocks ⟨t, .deleteLock mu, now⟩ = some c) :
    Owning maxLocks (w.hooked t .idle c) held := by
  have own := h.agrees t
  rw [hidle] at own
  refine h.hooked (h.toTracking.delete hstep hunused) (fun _ _ => rfl) ?_ own
  rw [(Config.step_effect hstep).deleted.errors fun l hl hmu => ?_]
  · exact h.errors
  · obtain ⟨e, he, hmu', -⟩ := forall₂_mem_left (h.holds t) hl
    obtain rfl := Option.some.inj (hmu'.symm.trans hmu)
    exact (hunused t).1 (mem_keys.mpr ⟨e.2, he⟩)

theorem inLock {id : GraphId} (h : Owning maxLocks w held)
    (hentered : w.position t = .entered mu id)
    (hstep : w.config.step maxLocks ⟨t, .inLock 0, now⟩ = some c) :
    Owning maxLocks (w.hooked t .idle c)
      (Function.update held t (CountedList.acquire maxLocks mu (held t))) := by
  have own := h.agrees t
  rw [hentered] at own
  refine h.hooked (h.toTracking.inLock hentered hstep) (fun u hu => Function.update_of_ne hu ..)
    ?_ ?_
  · simp only [h.inLock_effect hentered hstep]
    exact h.errors
  · simp only [Function.update_self]
    exact own.record

theorem acquire {m : RecursiveMutex ThreadId} {id : GraphId} (h : Owning maxLocks w held)
    (hposition : w.position t = .entering mu id ∨ w.position t = .trying mu id)
    (htracking : Tracking maxLocks (w.locked t mu (acquired mu id) m) held)
    (hm : (w.mutex mu).acquire t = some m) :
    Owning maxLocks (w.locked t mu (acquired mu id) m) held := by
  refine h.locked htracking (fun u hu q => ?_) ((h.agrees t).acquire hposition fun q => ?_)
  · grind [depth_acquire]
  · grind [depth_acquire]

/-- A step of a disciplined thread. -/
theorem step (h : Owning maxLocks w held) (hdisciplined : w.Disciplined maxLocks ⟨t, action, now⟩)
    (hmove : Moves maxLocks w t now action w') :
    Owning maxLocks w' (w.record maxLocks t action held) := by
  have htracking := h.toTracking.step hmove fun mu hmu => h.unused hdisciplined.unused hmu
  have own := h.agrees t
  cases hmove with
  | enter hidle hstep => exact h.enter hidle hdisciplined.room hstep
  | tryEnter hidle hstep => exact h.tryEnter hidle hdisciplined.room hstep
  | leave hidle hstep => exact h.leave hidle hdisciplined.owned hstep
  | delete hidle hstep => exact h.delete hidle (h.unused hdisciplined.unused rfl) hstep
  | enterReturns hentering hm => exact h.acquire (.inl hentering) htracking hm
  | tryEnterReturns htrying hm => exact h.acquire (.inr htrying) htracking hm
  | @tryEnterFails mu id htrying =>
    rw [htrying] at own
    refine h.locked htracking (fun u hu q => depth_unchanged u q) ?_
    rw [funext (depth_unchanged t)]
    exact own.fail
  | @inLock mu id c hentered hstep =>
    rw [record_inLock hentered]
    exact h.inLock hentered hstep
  | @leaveReturns mu m hleaving hm =>
    rw [hleaving] at own
    refine h.locked htracking (fun u hu q => ?_) (own.release fun q => ?_)
    · grind [depth_release]
    · grind [depth_release]

end Owning

/-! ## The history of a thread -/

section Main

variable {maxLocks : Nat} {options : RuntimeOptions} {w : World} {as : List Act}
  {held : ThreadId → List (Addr × Nat)}

/-- Without deletions the discipline can be checked. -/
theorem along_disciplined (hno : ∀ a ∈ as, ∀ mu, a.action ≠ .delete mu)
    (h : Along (fun w a => w.HasRoom maxLocks a ∧ w.LeavesOwned a) (step maxLocks) w as) :
    Along (Disciplined maxLocks) (step maxLocks) w as :=
  h.mono_of_mem fun _ a ha hchecked =>
    ⟨hchecked.1, hchecked.2, fun mu hmu => absurd hmu (hno a ha mu)⟩

end Main

end World
end CppGuard
