import CppGuard.CriticalSection.Ownership
import CppGuard.DeadlockMonitor.Errors
import CppGuard.DeadlockMonitor.Registry

/-!
# What a watchdog error says about one lock

A thread has one start time for all its locks. It is that of a single lock as long as the thread
never gives up the lock that the time belongs to while it keeps another one, and never fails to
enter one.
-/
namespace CppGuard
open Transition ThreadHistory DeadlockMonitor

namespace Registry

/-- Every entry points to the object that its thread has now. -/
def Current (r : Registry) : Prop :=
  ∀ o ∈ r.watchdog.threads, r.tracked o.syncPtr.owner = true ∧
    o.syncPtr.address = r.address o.syncPtr.owner

variable {r : Registry} {tl : ThreadLocal} {t : ThreadId} {hook : Hook}

theorem Current.congr (h : Current r) {watchdog : ThreadWatchdog}
    (hids : watchdog.threads.map (fun o => (o.syncPtr, o.threadId)) =
      r.watchdog.threads.map fun o => (o.syncPtr, o.threadId)) : Current { r with watchdog } := by
  intro o ho
  have hmem := List.mem_map_of_mem (f := fun o => (o.syncPtr, o.threadId)) ho
  rw [hids] at hmem
  obtain ⟨o', ho', hptr⟩ := List.mem_map.mp hmem
  rw [← (Prod.mk.inj hptr).1]
  exact h o' ho'

theorem Current.track (h : Current r) (t : ThreadId) : Current (r.track t) := by
  intro o ho
  obtain ⟨htracked, haddress⟩ := h o ho
  refine ⟨?_, haddress⟩
  unfold Registry.track
  grind [Function.update_apply]

theorem Current.create (h : Current r) (hnew : ¬ r.tracked t = true) : Current (r.create t) := by
  intro o ho
  obtain ⟨htracked, haddress⟩ := h o ho
  have hne : o.syncPtr.owner ≠ t := fun heq => hnew (heq ▸ htracked)
  simp only [Registry.create, Registry.track, Function.update_of_ne hne]
  exact ⟨htracked, haddress⟩

theorem Current.watch (h : Current r) (htracked : r.tracked t = true) : Current (r.watch t) := by
  intro o ho
  simp only [Registry.watch, ThreadWatchdog.addThread_list] at ho ⊢
  split_ifs at ho
  · obtain ho | ho := List.mem_append.mp ho
    · exact h o ho
    · obtain rfl := List.mem_singleton.mp ho
      exact ⟨htracked, rfl⟩
  · exact h o ho

theorem Current.get (h : Current r) (t : ThreadId) (monitorThread : Bool) :
    Current (r.get t monitorThread) := by
  unfold Registry.get
  split_ifs with htracked hmonitor
  · exact h
  · exact (h.create htracked).watch (Function.update_self ..)
  · exact h.create htracked

theorem Current.call (h : Current r) (tl : ThreadLocal) (t : ThreadId)
    (hexit : hook ≠ .threadDelete) : Current (r.call tl t hook) := by
  apply call_cases (P := Current)
  · exact h
  · exact h.track t
  · exact h.get t
  · exact fun _ _ => h
  · exact fun hdelete => absurd hdelete hexit

/-- What the watchdog reads is the start time of a thread that runs. -/
theorem Current.starts {m : DeadlockMonitor} (h : m.registry.Current) {o : ThreadInfo}
    (ho : o ∈ m.threadWatchdog.threads) (maxLocks : Nat) :
    m.starts o.syncPtr = (m.locksHeld maxLocks o.syncPtr.owner).lockStartTimePoint := by
  obtain ⟨htracked, haddress⟩ := h o ho
  obtain ⟨held, hheld⟩ := Option.isSome_iff_exists.mp htracked
  have hptr : m.syncPtr o.syncPtr.owner = o.syncPtr :=
    congrArg (SyncPtr.mk o.syncPtr.owner) haddress.symm
  simp only [DeadlockMonitor.starts, syncLocks, locksHeld, hheld, hptr, if_true, Option.getD_some]

end Registry

/-! ## Waiting for a lock and holding it -/

namespace World

/-- The thread waits for the lock or owns it. -/
def Engaged (w : World) (t : ThreadId) (mu : Addr) : Prop :=
  (w.position t).acquiring = some mu ∨ 0 < w.depth t mu

instance (w : World) (t : ThreadId) (mu : Addr) : Decidable (w.Engaged t mu) :=
  inferInstanceAs (Decidable (_ ∨ _))

/-- With the step the thread gives up a lock. -/
def GivesUp (w : World) (a : Act) (mu : Addr) : Prop :=
  (a.action = .tryEnterReturns false ∧ (w.position a.thread).acquiring = some mu ∧
    w.depth a.thread mu = 0) ∨
  (a.action = .leaveReturns ∧ w.position a.thread = .leaving mu ∧ w.depth a.thread mu = 1)

variable {maxLocks now : Nat} {w w' : World} {t u : ThreadId} {action : Action} {mu : Addr}

/-- The steps of another thread do not matter. -/
theorem Moves.engaged_other (h : Moves maxLocks w t now action w') (hu : u ≠ t) (mu : Addr) :
    w'.Engaged u mu ↔ w.Engaged u mu := by
  unfold Engaged
  cases h with
  | enter | tryEnter | leave | delete | inLock =>
    simp only [hooked, Function.update_of_ne hu]
    rfl
  | enterReturns _ hm | tryEnterReturns _ hm =>
    rw [depth_acquire hm, if_neg fun h => hu h.1]
    simp only [locked, Function.update_of_ne hu]
  | tryEnterFails =>
    rw [depth_unchanged]
    simp only [locked, Function.update_of_ne hu]
  | leaveReturns _ hm =>
    rw [depth_release hm, if_neg fun h => hu h.1]
    simp only [locked, Function.update_of_ne hu]

/-- A thread is engaged with a lock from the call of its before-hook until it gives the lock up. -/
theorem Moves.engaged_iff (h : Moves maxLocks w t now action w') (mu : Addr) :
    w'.Engaged t mu ↔ (w.Engaged t mu ∨ action = .enter mu ∨ action = .tryEnter mu) ∧
      ¬ w.GivesUp ⟨t, action, now⟩ mu := by
  have hacquired : ∀ q id, (acquired q id).acquiring = none := by
    intro q id
    unfold acquired
    split_ifs <;> rfl
  unfold Engaged GivesUp
  cases h with
  | @enter q c hidle | @tryEnter q c hidle =>
    simp only [hooked, depth, Function.update_self, hidle, Position.acquiring]
    grind
  | @leave q c hidle | @delete q c hidle =>
    simp only [hooked, depth, Function.update_self, hidle, Position.acquiring]
    grind
  | @inLock q id c hentered =>
    simp only [hooked, depth, Function.update_self, hentered, Position.acquiring]
    grind
  | @enterReturns q id m hposition hm | @tryEnterReturns q id m hposition hm =>
    rw [depth_acquire hm, hposition]
    simp only [locked, Function.update_self, hacquired]
    grind [Position.acquiring]
  | @tryEnterFails q id htrying =>
    rw [depth_unchanged, htrying]
    simp only [locked, Function.update_self, Position.acquiring]
    grind
  | @leaveReturns q m hleaving hm =>
    rw [depth_release hm, hleaving]
    simp only [locked, Function.update_self, Position.acquiring]
    grind

/-- The start times of the threads after a step. -/
theorem Moves.start_cases (h : Moves maxLocks w t now action w') :
    (∀ u, u ≠ t → (w'.core maxLocks).start u = (w.core maxLocks).start u) ∧
    ((w'.core maxLocks).start t = (w.core maxLocks).start t ∨ (w'.core maxLocks).start t = 0 ∨
      (w'.core maxLocks).start t = now ∧ ∃ mu, w'.Engaged t mu) := by
  have hook : ∀ {hook c p}, w.config.step maxLocks ⟨t, hook, now⟩ = some c → hook ≠ .cndWait →
      (∀ mu, hook = .beforeLock mu ∨ hook = .beforeTryLock mu →
        ∃ mu, (w.hooked t p c).Engaged t mu) →
      (∀ u, u ≠ t →
        ((w.hooked t p c).core maxLocks).start u = (w.core maxLocks).start u) ∧
      (((w.hooked t p c).core maxLocks).start t = (w.core maxLocks).start t ∨
        ((w.hooked t p c).core maxLocks).start t = 0 ∨
        ((w.hooked t p c).core maxLocks).start t = now ∧
          ∃ mu, (w.hooked t p c).Engaged t mu) := by
    intro hook c p hstep hwait hbefore
    have heffect := Config.step_effect hstep
    refine ⟨fun u hu => ?_, ?_⟩
    · exact congrArg SynchLocksHeld.lockStartTimePoint (heffect.frame hu).1
    · obtain hsame | ⟨-, hzero⟩ | ⟨-, hnow, mu, hmu⟩ := heffect.start_cases hwait
      · exact Or.inl hsame
      · exact Or.inr (Or.inl hzero)
      · exact Or.inr (Or.inr ⟨hnow, hbefore mu hmu⟩)
  cases h with
  | @enter mu c hidle hstep | @tryEnter mu c hidle hstep =>
    refine hook hstep (by simp) fun _ _ => ⟨mu, ?_⟩
    simp [Engaged, hooked, Position.acquiring]
  | leave _ hstep | delete _ hstep | inLock _ hstep =>
    exact hook hstep (by simp) fun _ h => by simp at h
  | enterReturns | tryEnterReturns | tryEnterFails | leaveReturns =>
    exact ⟨fun _ _ => rfl, Or.inl rfl⟩

theorem Moves.current (h : Moves maxLocks w t now action w')
    (hcurrent : w.config.monitor.registry.Current) : w'.config.monitor.registry.Current := by
  have hook : ∀ {hook c}, w.config.step maxLocks ⟨t, hook, now⟩ = some c →
      hook ≠ .threadDelete → c.monitor.registry.Current := by
    intro hook c hstep hexit
    rw [Config.step_registry hstep]
    exact hcurrent.call _ t hexit
  cases h with
  | enter _ hstep | tryEnter _ hstep | leave _ hstep | delete _ hstep | inLock _ hstep =>
    exact hook hstep nofun
  | enterReturns | tryEnterReturns | tryEnterFails | leaveReturns => exact hcurrent

theorem GivesUp.unique {a : Act} {q : Addr} (h : w.GivesUp a mu) (hq : w.GivesUp a q) :
    mu = q := by
  unfold GivesUp at h hq
  grind

theorem GivesUp.not_call {a : Act} (h : w.GivesUp a mu) (q : Addr) :
    ¬ (a.action = .enter q ∨ a.action = .tryEnter q) := by
  rintro (haction | haction) <;> simp [GivesUp, haction] at h

theorem Moves.core_of_givesUp (h : Moves maxLocks w t now action w')
    (hgives : w.GivesUp ⟨t, action, now⟩ mu) : w'.core maxLocks = w.core maxLocks := by
  unfold GivesUp at hgives
  cases h with
  | tryEnterFails | leaveReturns => rfl
  | _ => simp at hgives

end World

/-! ## Runs -/

/-- A step of a thread, or a step of the watchdog. -/
inductive Move where
  | act (a : Act)
  | watch (task : Task)
  deriving DecidableEq, Repr

/-- What the clock shows at a step, if it is known. -/
def Move.time : Move → Option Nat
  | .act a => some a.now
  | .watch task => task.time

/-- The threads, what the clock has shown, and since when the threads wait for their locks or hold
them. -/
structure TimedWorld where
  world : World := {}
  clock : Nat := 0
  since : ThreadId → Addr → Nat := fun _ _ => 0

def World.perform (maxLocks : Nat) (w : World) : Move → Option World
  | .act a => w.step maxLocks a
  | .watch (.hook _) => none
  | .watch task => (w.config.perform maxLocks task).map ({ w with config := · })

namespace TimedWorld

def start (options : RuntimeOptions) (debuggerPresent timerQueue : Bool) : TimedWorld where
  world := { config := .start options debuggerPresent timerQueue }

def after (s : TimedWorld) (now : Nat) (w : World) : TimedWorld where
  world := w
  clock := now
  since t mu := if w.Engaged t mu ∧ ¬ s.world.Engaged t mu then now else s.since t mu

/-- The clock does not go back. -/
def step (maxLocks : Nat) (s : TimedWorld) (move : Move) : Option TimedWorld :=
  let now := move.time.getD s.clock
  if s.clock ≤ now then (s.world.perform maxLocks move).map (s.after now) else none

/-- The thread has waited for the lock or held it since `time`. -/
def EngagedSince (s : TimedWorld) (t : ThreadId) (time : Nat) (mu : Addr) : Prop :=
  s.world.Engaged t mu ∧ s.since t mu ≤ time

/-- The start time of every thread is that of a lock that it still waits for or holds. -/
def StartJustified (maxLocks : Nat) (s : TimedWorld) : Prop :=
  ∀ t, (s.world.core maxLocks).start t = 0 ∨
    ∃ mu, s.EngagedSince t ((s.world.core maxLocks).start t) mu

/-- If a callback selects a thread, then it has waited for one lock or held it all the time. -/
def SelectsJustified (s : TimedWorld) (move : Move) : Prop :=
  ∀ now callback p d, move = .watch (.scan now callback) →
    s.world.config.selected now = some (p, d) → d ≤ now ∧ ∃ mu, s.EngagedSince p.owner (now - d) mu

/-- A thread that gives up a lock while the watchdog is armed keeps another one, for which it has
waited or which it has held since the start time. -/
def KeepsOldest (maxLocks : Nat) (s : TimedWorld) (move : Move) : Prop :=
  ∀ a mu, move = .act a → s.world.GivesUp a mu → (s.world.core maxLocks).start a.thread = 0 ∨
    ∃ q, q ≠ mu ∧ s.EngagedSince a.thread ((s.world.core maxLocks).start a.thread) q

structure Inv (maxLocks : Nat) (s : TimedWorld) : Prop where
  current : s.world.config.monitor.registry.Current
  since_le : ∀ t mu, s.since t mu ≤ s.clock
  justified : s.StartJustified maxLocks

variable {maxLocks : Nat} {s s' : TimedWorld} {move : Move} {w : World} {t : ThreadId}
  {mu : Addr} {time : Nat}

theorem step_eq_some (h : step maxLocks s move = some s') : ∃ w,
    s.world.perform maxLocks move = some w ∧ s.clock ≤ move.time.getD s.clock ∧
      s' = s.after (move.time.getD s.clock) w := by
  unfold step at h
  simp only at h
  split_ifs at h with hclock
  obtain ⟨w, hw, rfl⟩ := Option.map_eq_some_iff.mp h
  exact ⟨w, hw, hclock, rfl⟩

theorem since_after (now : Nat) (h : s.world.Engaged t mu ∨ ¬ w.Engaged t mu) :
    (s.after now w).since t mu = s.since t mu := by
  apply if_neg
  rintro ⟨hnew, hold⟩
  exact h.elim hold fun hnot => hnot hnew

theorem Inv.since_after_le {now : Nat} (h : Inv maxLocks s) (hclock : s.clock ≤ now) (t : ThreadId)
    (mu : Addr) : (s.after now w).since t mu ≤ now := by
  simp only [after]
  split_ifs
  · exact Nat.le_refl now
  · exact (h.since_le t mu).trans hclock

/-- What a thread does not give up, it has had as long as before. -/
theorem EngagedSince.after {now : Nat} (h : s.EngagedSince t time mu) (hkept : w.Engaged t mu) :
    (s.after now w).EngagedSince t time mu :=
  ⟨hkept, (since_after now (Or.inl h.1)).trans_le h.2⟩

/-! ## Steps -/

theorem perform_watch {task : Task} (h : s.world.perform maxLocks (.watch task) = some w) :
    ∃ c, w = { s.world with config := c } ∧ s.world.config.perform maxLocks task = some c ∧
      ∀ e, task ≠ .hook e := by
  cases task with
  | hook e => cases h
  | timerExpired i | scan now i | report i | rearm i =>
    obtain ⟨c, hc, rfl⟩ := Option.map_eq_some_iff.mp h
    exact ⟨c, rfl, hc, nofun⟩

/-- The watchdog does not change what the threads wait for, nor their start times. -/
theorem Inv.watch {task : Task} (h : Inv maxLocks s)
    (hstep : step maxLocks s (.watch task) = some s') : Inv maxLocks s' := by
  obtain ⟨w, hw, hclock, rfl⟩ := step_eq_some hstep
  obtain ⟨c, rfl, hc, hnot⟩ := perform_watch hw
  have hstart : ∀ t, (c.core maxLocks).start t = (s.world.core maxLocks).start t := by
    intro t
    have hlocals := Config.perform_threadLocals hc hnot
    simp only [Core.start, Config.core, DeadlockMonitor.locksHeld, hlocals]
  refine ⟨?_, h.since_after_le hclock, fun t => ?_⟩
  · obtain ⟨w, hregistry, hthreads, -⟩ := Config.perform_registry hc hnot
    change c.monitor.registry.Current
    rw [hregistry]
    apply h.current.congr
    rw [hthreads]
    exact s.world.config.scanned_ids task
  · obtain hzero | ⟨mu, hmu⟩ := h.justified t
    · exact Or.inl ((hstart t).trans hzero)
    · refine Or.inr ⟨mu, ?_⟩
      rw [← hstart t] at hmu
      exact hmu.after hmu.1

theorem Inv.act {a : Act} (h : Inv maxLocks s) (hkeeps : s.KeepsOldest maxLocks (.act a))
    (hstep : step maxLocks s (.act a) = some s') : Inv maxLocks s' := by
  obtain ⟨w, hw, hclock, rfl⟩ := step_eq_some hstep
  change s.clock ≤ a.now at hclock
  have hmove := World.step_moves hw
  obtain ⟨hother, hown⟩ := hmove.start_cases
  refine ⟨hmove.current h.current, h.since_after_le hclock, fun t => ?_⟩
  by_cases ht : t = a.thread
  · subst ht
    obtain hsame | hzero | ⟨hnow, mu, hmu⟩ := hown
    · -- the lock that the start time belongs to may be given up, and then there is another one
      have hkept : (s.world.core maxLocks).start a.thread = 0 ∨ ∃ q, ¬ s.world.GivesUp a q ∧
          s.EngagedSince a.thread ((s.world.core maxLocks).start a.thread) q := by
        obtain hzero | ⟨mu, hmu⟩ := h.justified a.thread
        · exact Or.inl hzero
        · by_cases hgives : s.world.GivesUp a mu
          · obtain hzero | ⟨q, hq, hsince⟩ := hkeeps a mu rfl hgives
            · exact Or.inl hzero
            · exact Or.inr ⟨q, fun hgives' => hq (hgives'.unique hgives), hsince⟩
          · exact Or.inr ⟨mu, hgives, hmu⟩
      obtain hzero | ⟨q, hgives, hsince⟩ := hkept
      · exact Or.inl (hsame.trans hzero)
      · refine Or.inr ⟨q, ?_⟩
        rw [← hsame] at hsince
        exact hsince.after ((hmove.engaged_iff q).mpr ⟨Or.inl hsince.1, hgives⟩)
    · exact Or.inl hzero
    · refine Or.inr ⟨mu, hmu, ?_⟩
      exact (h.since_after_le hclock a.thread mu).trans_eq hnow.symm
  · have hsame := hother t ht
    obtain hzero | ⟨mu, hmu⟩ := h.justified t
    · exact Or.inl (hsame.trans hzero)
    · refine Or.inr ⟨mu, ?_⟩
      rw [← hsame] at hmu
      exact hmu.after ((hmove.engaged_other ht mu).mpr hmu.1)

theorem Inv.kept (h : Inv maxLocks s) (hkeeps : s.KeepsOldest maxLocks move)
    (hstep : step maxLocks s move = some s') : Inv maxLocks s' := by
  cases move with
  | act a => exact h.act hkeeps hstep
  | watch task => exact h.watch hstep

/-- A thread that gives up the last lock for the start time is watched for none. -/
theorem not_startJustified (hkeeps : ¬ s.KeepsOldest maxLocks move)
    (hstep : step maxLocks s move = some s') : ¬ s'.StartJustified maxLocks := by
  unfold KeepsOldest at hkeeps
  push Not at hkeeps
  obtain ⟨a, mu, rfl, hgives, hne, hnone⟩ := hkeeps
  obtain ⟨w, hw, hclock, rfl⟩ := step_eq_some hstep
  have hmove := World.step_moves hw
  have hstart : (w.core maxLocks).start a.thread = (s.world.core maxLocks).start a.thread := by
    rw [hmove.core_of_givesUp hgives]
  intro hjustified
  obtain hzero | ⟨q, hengaged, hsince⟩ := hjustified a.thread
  · exact hne (hstart.symm.trans hzero)
  · obtain ⟨hold, hnot⟩ := (hmove.engaged_iff q).mp hengaged
    have hold := hold.resolve_right fun hcall => hgives.not_call q hcall
    have hq : q ≠ mu := fun heq => hnot (heq ▸ hgives)
    refine hnone q hq ⟨hold, ?_⟩
    rw [since_after _ (Or.inl hold)] at hsince
    exact hsince.trans_eq hstart

/-- A callback selects a thread whose start time is that of a lock. -/
theorem Inv.selectsJustified (h : Inv maxLocks s) : s.SelectsJustified move := by
  rintro now callback p d rfl hselected
  obtain ⟨o, ho, rfl, -, hne, hlt, -, hd⟩ := Config.selected_eq_some hselected
  have hstart : s.world.config.monitor.starts o.syncPtr =
      (s.world.core maxLocks).start o.syncPtr.owner := h.current.starts ho maxLocks
  have htime : now - d = (s.world.core maxLocks).start o.syncPtr.owner := by
    rw [← hstart]
    omega
  refine ⟨hd ▸ Nat.sub_le _ _, ?_⟩
  rw [htime]
  exact (h.justified o.syncPtr.owner).resolve_left (hstart ▸ hne)

theorem inv_start (maxLocks : Nat) (options : RuntimeOptions) (debuggerPresent timerQueue : Bool) :
    Inv maxLocks (start options debuggerPresent timerQueue) where
  current _ ho := absurd ho List.not_mem_nil
  since_le _ _ := Nat.le_refl _
  justified _ := Or.inl rfl

/-- The start times are always those of single locks if and only if no thread gives up the lock that
its start time belongs to before all the others. Then whatever a callback selects is justified. -/
theorem selectsJustified_of_keepsOldest {options : RuntimeOptions}
    {debuggerPresent timerQueue : Bool} {moves : List Move}
    (hrun : exec (step maxLocks) (start options debuggerPresent timerQueue) moves = some s) :
    (Always (StartJustified maxLocks) (step maxLocks) (start options debuggerPresent timerQueue)
        moves ↔
      Along (KeepsOldest maxLocks) (step maxLocks) (start options debuggerPresent timerQueue)
        moves) ∧
    (Along (KeepsOldest maxLocks) (step maxLocks) (start options debuggerPresent timerQueue)
        moves →
      Along SelectsJustified (step maxLocks) (start options debuggerPresent timerQueue) moves) := by
  have hinv := inv_start maxLocks options debuggerPresent timerQueue
  constructor
  · exact always_iff_along (I := Inv maxLocks) (fun _ h => h.justified)
      (fun _ _ _ _ h hkeeps hstep => h.kept hkeeps hstep)
      (fun _ _ _ _ _ hkeeps hstep => not_startJustified hkeeps hstep) hinv hrun
  · exact along_of_invariant (I := Inv maxLocks) (fun _ _ _ _ h _ => h.selectsJustified)
      (fun _ _ _ _ h hkeeps hstep => h.kept hkeeps hstep) hinv hrun

/-- The threads wait only for locks that they have asked for. -/
theorem exec_engaged {options : RuntimeOptions} {debuggerPresent timerQueue : Bool}
    {moves : List Move} (locks : List Addr)
    (hlocks : ∀ a, Move.act a ∈ moves → ∀ mu, a.action = .enter mu ∨ a.action = .tryEnter mu →
      mu ∈ locks)
    (hrun : exec (step maxLocks) (start options debuggerPresent timerQueue) moves = some s) :
    ∀ t mu, s.world.Engaged t mu → mu ∈ locks := by
  refine exec_invariant_of_mem (P := fun s => ∀ t mu, s.world.Engaged t mu → mu ∈ locks) ?_ ?_ hrun
  · intro s move hmem s' h hstep t mu hengaged
    obtain ⟨w, hw, -, rfl⟩ := step_eq_some hstep
    cases move with
    | act a =>
      have hmove := World.step_moves hw
      by_cases ht : t = a.thread
      · subst ht
        obtain hold | hcall := ((hmove.engaged_iff mu).mp hengaged).1
        · exact h a.thread mu hold
        · exact hlocks a hmem mu hcall
      · exact h t mu ((hmove.engaged_other ht mu).mp hengaged)
    | watch task =>
      obtain ⟨c, rfl, -⟩ := perform_watch hw
      exact h t mu hengaged
  · rintro t mu (hacquiring | hdepth)
    · cases hacquiring
    · exact absurd hdepth (Nat.lt_irrefl 0)

/-- A thread always holds one of two locks, but neither of them for long. -/
def handOverHand : List Move :=
  [.act ⟨1, .enter 16, 1⟩, .act ⟨1, .enterReturns, 1⟩, .act ⟨1, .inLock, 1⟩,
    .watch (.timerExpired 0), .act ⟨1, .enter 32, 20000⟩, .act ⟨1, .enterReturns, 20000⟩,
    .act ⟨1, .inLock, 20000⟩, .act ⟨1, .leave 16, 20001⟩, .act ⟨1, .leaveReturns, 20001⟩]

theorem exec_handOverHand : ∃ s, exec (step 20) (start {} false true) handOverHand = some s ∧
    s.world.config.selected 40000 = some (⟨1, 0⟩, 39999) ∧
    (∀ mu ∈ ([16, 32] : List Addr), s.world.Engaged 1 mu → 1 < s.since 1 mu) ∧
    (step 20 s (.watch (.scan 40000 0))).isSome = true :=
  exists_exec (by decide +kernel)

theorem handOverHand_not_selectsJustified : ¬ ∀ maxLocks options debuggerPresent timerQueue moves s,
    exec (step maxLocks) (start options debuggerPresent timerQueue) moves = some s →
    Along SelectsJustified (step maxLocks) (start options debuggerPresent timerQueue) moves := by
  intro h
  obtain ⟨s, hrun, hselected, hsince, hpossible⟩ := exec_handOverHand
  obtain ⟨s', hscan⟩ := Option.isSome_iff_exists.mp hpossible
  have halong := h 20 {} false true _ s' (exec_concat.mpr ⟨s, hrun, hscan⟩)
  have hjustified := ((along_append hrun).mp halong).2.1
  obtain ⟨-, mu, hengaged, hle⟩ := hjustified 40000 0 _ _ rfl hselected
  have hmem := exec_engaged [16, 32] (by simp [handOverHand]) hrun 1 mu hengaged
  exact absurd hle (Nat.not_le.mpr (hsince mu hmem hengaged))

/-- A thread enters a second lock inside the first one, and leaves it again. -/
def insideOne : List Move :=
  [.act ⟨1, .enter 16, 1⟩, .act ⟨1, .enterReturns, 1⟩, .act ⟨1, .inLock, 1⟩,
    .watch (.timerExpired 0), .act ⟨1, .enter 32, 20000⟩, .act ⟨1, .enterReturns, 20000⟩,
    .act ⟨1, .inLock, 20000⟩, .act ⟨1, .leave 32, 20001⟩, .act ⟨1, .leaveReturns, 20001⟩]

/-- The only lock that the thread gives up is the second one. -/
def KeepsFirst (s : TimedWorld) : Move → Prop
  | .act a => a.action ≠ .tryEnterReturns false ∧ (a.action = .leaveReturns →
      s.world.position a.thread = .leaving 32 ∧
        s.EngagedSince a.thread ((s.world.core 20).start a.thread) 16)
  | .watch _ => True

instance (s : TimedWorld) (move : Move) : Decidable (KeepsFirst s move) :=
  have (t : ThreadId) (time : Nat) (mu : Addr) : Decidable (s.EngagedSince t time mu) :=
    inferInstanceAs (Decidable (_ ∧ _))
  match move with
  | .act _ => inferInstanceAs (Decidable (_ ∧ (_ → _ ∧ _)))
  | .watch _ => isTrue trivial

theorem KeepsFirst.keepsOldest (h : s.KeepsFirst move) : s.KeepsOldest 20 move := by
  rintro a mu rfl (⟨hfails, -⟩ | ⟨hreturns, hleaving, -⟩)
  · exact absurd hfails h.1
  · obtain ⟨hposition, hfirst⟩ := h.2 hreturns
    obtain rfl := Position.leaving.inj (hposition.symm.trans hleaving)
    exact Or.inr ⟨16, by decide, hfirst⟩

theorem selectsJustified_of_keepsOldest_sample : ∃ s,
    exec (step 20) (start {} false true) insideOne = some s ∧
    s.world.config.selected 40000 = some (⟨1, 0⟩, 39999) ∧
    Along (KeepsOldest 20) (step 20) (start {} false true)
      (insideOne ++ [.watch (.scan 40000 0)]) ∧
    Along SelectsJustified (step 20) (start {} false true)
      (insideOne ++ [.watch (.scan 40000 0)]) := by
  obtain ⟨s, hrun, hselected, hpossible⟩ : ∃ s,
      exec (step 20) (start {} false true) insideOne = some s ∧
      s.world.config.selected 40000 = some (⟨1, 0⟩, 39999) ∧
      (step 20 s (.watch (.scan 40000 0))).isSome = true := exists_exec (by decide +kernel)
  obtain ⟨s', hscan⟩ := Option.isSome_iff_exists.mp hpossible
  have hfirst : Along KeepsFirst (step 20) (start {} false true)
      (insideOne ++ [.watch (.scan 40000 0)]) := by decide +kernel
  have hkeeps : Along (KeepsOldest 20) (step 20) (start {} false true)
      (insideOne ++ [.watch (.scan 40000 0)]) :=
    hfirst.mono_of_mem fun _ _ _ h => h.keepsOldest
  exact ⟨s, hrun, hselected, hkeeps,
    (selectsJustified_of_keepsOldest (exec_concat.mpr ⟨s, hrun, hscan⟩)).2 hkeeps⟩

end TimedWorld
end CppGuard
