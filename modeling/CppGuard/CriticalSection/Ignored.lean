import CppGuard.CriticalSection.Calls

/-!
# Calls that are to be ignored

`increase_ignore_counter` makes the monitor ignore the next calls of a thread. A call of
`dlc_deadlock_check_before_lock` is ignored, but `dlc_deadlock_check_before_try_lock` only
counts the call down and records it all the same, while its release is ignored: the lock stays
in the history, unless the history was full.
-/
namespace CppGuard
open Transition ThreadHistory DeadlockMonitor

/-- A call of a wrapper that acquires a lock. -/
structure Acquisition where
  tryEnter : Bool
  mu : Addr
  now : Nat := 1
  deriving DecidableEq, Repr

namespace Config

/-- A thread acquires a lock; an acquisition with `TryEnter` succeeds. -/
def acquire (maxLocks : Nat) (t : ThreadId) (c : Config) (a : Acquisition) : Option Config :=
  if a.tryEnter then cppguardTryenterCriticalSection maxLocks a.now t a.mu true c
  else cppguardEnterCriticalSection maxLocks a.now t a.mu c

def release (maxLocks : Nat) (t : ThreadId) (c : Config) (mu : Addr) : Option Config :=
  cppguardLeaveCriticalSection maxLocks 1 t mu c

/-- `increase_ignore_counter(k, k)`, then acquisitions, then releases. -/
def ignoring (maxLocks : Nat) (t : ThreadId) (acquisitions : List Acquisition)
    (releases : List Addr) (c : Config) : Option Config := do
  let k := acquisitions.length
  let c ← step maxLocks c ⟨t, .increaseIgnoreCounter k k, 1⟩
  let c ← exec (acquire maxLocks t) c acquisitions
  exec (release maxLocks t) c releases

/-- The history of the thread, with its start time, and the edges of the graph are the same,
and nothing is to be ignored any more. -/
structure NoTrace (maxLocks : Nat) (t : ThreadId) (c c' : Config) : Prop where
  held : c'.monitor.locksHeld maxLocks t = c.monitor.locksHeld maxLocks t
  edge : ∀ u v, c'.monitor.deadlockGraph.Edge u v ↔ c.monitor.deadlockGraph.Edge u v
  ignoreCounterLock : (c'.monitor.threadLocals t).ignoreCounterLock = 0
  ignoreCounterUnlock : (c'.monitor.threadLocals t).ignoreCounterUnlock = 0

variable {maxLocks : Nat} {c c' : Config} {t : ThreadId}

/-! ## One acquisition -/

/-- What acquisitions that are to be ignored leave alone in any case. -/
structure CountedDown (maxLocks : Nat) (t : ThreadId) (k : Nat) (c c' : Config) : Prop where
  inv : (c'.core maxLocks).Inv maxLocks
  edge : ∀ u v, (c'.core maxLocks).graph.Edge u v ↔ (c.core maxLocks).graph.Edge u v
  ignoreLock : (c'.core maxLocks).ignoreLock t + k = (c.core maxLocks).ignoreLock t
  ignoreUnlock : (c'.core maxLocks).ignoreUnlock t = (c.core maxLocks).ignoreUnlock t
  recorded : ∀ x, ((c.core maxLocks).held t).recorded x ≤ ((c'.core maxLocks).held t).recorded x

/-- The history of the thread is the same, and no lock of it has been deleted. -/
structure SameHistory (maxLocks : Nat) (t : ThreadId) (c c' : Config) : Prop where
  held : (c'.core maxLocks).held t = (c.core maxLocks).held t
  live : ∀ l ∈ ((c.core maxLocks).held t).entries, ∀ p,
    (c'.core maxLocks).graph.Live l.id p ↔ (c.core maxLocks).graph.Live l.id p

theorem SameHistory.noRoomFor (h : SameHistory maxLocks t c c') (mu : Addr) :
    NoRoomFor maxLocks t mu c' ↔ NoRoomFor maxLocks t mu c := by
  have hheld : c'.monitor.locksHeld maxLocks t = c.monitor.locksHeld maxLocks t := h.held
  unfold NoRoomFor
  rw [hheld]
  exact and_congr_right fun _ => forall₂_congr fun l hl => not_congr (h.live l hl mu)

/-- An acquisition that is to be ignored is recorded, or leaves the history alone. -/
theorem acquire_ignored (hs : (c.core maxLocks).Inv maxLocks) (hmax : 0 < maxLocks)
    (hignore : 0 < (c.core maxLocks).ignoreLock t) {a : Acquisition}
    (h : acquire maxLocks t c a = some c') : CountedDown maxLocks t 1 c c' ∧
      ((a.tryEnter = true → NoRoomFor maxLocks t a.mu c) → SameHistory maxLocks t c c') ∧
      ((a.tryEnter = true ∧ ¬ NoRoomFor maxLocks t a.mu c) →
        ∃ x, ((c.core maxLocks).held t).recorded x < ((c'.core maxLocks).held t).recorded x) := by
  unfold acquire at h
  split_ifs at h with htry
  · have hinv := tryenter_inv hs h
    obtain ⟨id, g, hgot, hcore⟩ := tryenter_core hs h
    have hvalid := (hs.valid t).arm a.now
    have hrecorded : ∀ x, (arm a.now ((c.core maxLocks).held t)).recorded x =
        ((c.core maxLocks).held t).recorded x := SynchLocksHeld.recorded_congr (entries_arm ..)
    have hheld : (c'.core maxLocks).held t =
        updateLockHistoryInLock a.mu id (arm a.now ((c.core maxLocks).held t)) := by
      rw [hcore]
      exact Function.update_self ..
    refine ⟨⟨hinv, by rw [hcore]; exact hgot.edge, ?_, by rw [hcore]; rfl, fun x => ?_⟩,
      fun hroom => ⟨?_, fun l hl p => ?_⟩, fun ⟨_, hroom⟩ => ⟨id, ?_⟩⟩
    · rw [hcore]
      simp only [Function.update_self]
      omega
    · rw [hheld, ← hrecorded]
      exact SynchLocksHeld.recorded_le_inLock hvalid a.mu id x
    · -- the list is full, so that the watchdog is armed already
      have hn : ((c.core maxLocks).held t).n ≠ 0 := by
        have hfull : ((c.core maxLocks).held t).n = maxLocks := (hroom htry).1
        omega
      have hdropped := (noRoomFor_iff hs hgot).mp (hroom htry)
      rw [hheld, arm, if_neg hn]
      exact SynchLocksHeld.inLock_dropped (hs.valid t) a.mu hdropped
    · have hne : l.id ≠ id := fun hid =>
        (hroom htry).2 l hl ((entry_iff_live hs hgot hl).mp hid)
      rw [hcore]
      simp [hgot.live, hne]
    · have haccepts : (arm a.now ((c.core maxLocks).held t)).Accepts maxLocks id := by
        have := not_not.mp (mt (noRoomFor_iff hs hgot).mpr hroom)
        unfold SynchLocksHeld.Accepts at this ⊢
        rw [entries_arm]
        refine this.imp_left fun hlt => ?_
        unfold arm
        split_ifs <;> exact hlt
      rw [hheld, SynchLocksHeld.recorded_inLock hvalid a.mu haccepts, if_pos rfl, hrecorded]
      omega
  · obtain ⟨c₁, henter, hcore⟩ := enter_ignored a.now a.mu hignore
    obtain rfl := Option.some.inj (henter.symm.trans h)
    have hinv := enter_inv hs h
    have hheld : (c₁.core maxLocks).held t = (c.core maxLocks).held t := by rw [hcore]; rfl
    have hgraph : (c₁.core maxLocks).graph = (c.core maxLocks).graph := by rw [hcore]; rfl
    refine ⟨⟨hinv, fun u v => by rw [hgraph], ?_, by rw [hcore]; rfl, fun x => by rw [hheld]⟩,
      fun _ => ⟨hheld, fun l _ p => by rw [hgraph]⟩, fun ⟨hyes, _⟩ => absurd hyes htry⟩
    rw [hcore]
    simp only [Function.update_self]
    omega

/-! ## Runs of them -/

/-- Acquisitions that are to be ignored leave the history alone, unless one of those with
`TryEnter` is recorded. -/
theorem exec_acquire (hmax : 0 < maxLocks) {acquisitions : List Acquisition}
    (hs : (c.core maxLocks).Inv maxLocks)
    (hignore : acquisitions.length ≤ (c.core maxLocks).ignoreLock t)
    (h : exec (acquire maxLocks t) c acquisitions = some c') :
    CountedDown maxLocks t acquisitions.length c c' ∧
      ((∀ a ∈ acquisitions, a.tryEnter = true → NoRoomFor maxLocks t a.mu c) →
        (c'.core maxLocks).held t = (c.core maxLocks).held t) ∧
      ((∃ a ∈ acquisitions, a.tryEnter = true ∧ ¬ NoRoomFor maxLocks t a.mu c) →
        ∃ x, ((c.core maxLocks).held t).recorded x < ((c'.core maxLocks).held t).recorded x) := by
  induction acquisitions generalizing c with
  | nil =>
    obtain rfl := Option.some.inj h
    exact ⟨⟨hs, fun _ _ => Iff.rfl, rfl, rfl, fun _ => le_rfl⟩, fun _ => rfl, by simp⟩
  | cons a acquisitions ih =>
    obtain ⟨c₁, ha, hrest⟩ := exec_cons.mp h
    rw [List.length_cons] at hignore ⊢
    obtain ⟨hdown, hsame, hmore⟩ := acquire_ignored hs hmax (by omega) ha
    obtain ⟨hdown', hsame', hmore'⟩ := ih hdown.inv (by have := hdown.ignoreLock; omega) hrest
    refine ⟨⟨hdown'.inv, fun u v => (hdown'.edge u v).trans (hdown.edge u v), ?_,
      hdown'.ignoreUnlock.trans hdown.ignoreUnlock,
      fun x => (hdown.recorded x).trans (hdown'.recorded x)⟩, fun hall => ?_, fun hex => ?_⟩
    · have := hdown.ignoreLock
      have := hdown'.ignoreLock
      omega
    · have hhistory := hsame (hall a List.mem_cons_self)
      rw [← hhistory.held]
      refine hsame' fun b hb htry => (hhistory.noRoomFor b.mu).mpr ?_
      exact hall b (List.mem_cons_of_mem a hb) htry
    · by_cases hfirst : a.tryEnter = true ∧ ¬ NoRoomFor maxLocks t a.mu c
      · obtain ⟨x, hx⟩ := hmore hfirst
        exact ⟨x, hx.trans_le (hdown'.recorded x)⟩
      · have hhistory := hsame fun htry => not_not.mp fun hroom => hfirst ⟨htry, hroom⟩
        obtain ⟨b, hb, htry, hroom⟩ := hex
        obtain rfl | hb := List.mem_cons.mp hb
        · exact absurd ⟨htry, hroom⟩ hfirst
        · rw [← hhistory.held]
          exact hmore' ⟨b, hb, htry, mt (hhistory.noRoomFor b.mu).mp hroom⟩

/-- Releases that are ignored. -/
theorem exec_release {releases : List Addr}
    (hignore : releases.length ≤ (c.core maxLocks).ignoreUnlock t)
    (h : exec (release maxLocks t) c releases = some c') :
    c'.core maxLocks = { c.core maxLocks with
      ignoreUnlock := Function.update (c.core maxLocks).ignoreUnlock t
        ((c.core maxLocks).ignoreUnlock t - releases.length) } := by
  induction releases generalizing c with
  | nil =>
    obtain rfl := Option.some.inj h
    rw [List.length_nil, Nat.sub_zero, Function.update_eq_self]
  | cons mu releases ih =>
    obtain ⟨c₁, hmu, hrest⟩ := exec_cons.mp h
    rw [List.length_cons] at hignore
    have hpos : 0 < (c.core maxLocks).ignoreUnlock t := by omega
    obtain ⟨c₂, hleave, hcore⟩ := leave_ignored 1 mu hpos
    obtain rfl := Option.some.inj (hleave.symm.trans hmu)
    have hcount : (c₂.core maxLocks).ignoreUnlock t = (c.core maxLocks).ignoreUnlock t - 1 := by
      rw [hcore]
      exact Function.update_self ..
    rw [ih (by omega) hrest, hcount, hcore, List.length_cons, Function.update_idem, Nat.sub_sub,
      Nat.add_comm 1]

/-- Acquisitions that are to be ignored leave no trace if and only if those with `TryEnter`
find no room for their locks. -/
theorem ignoring_noTrace_iff {es : List Event} {acquisitions : List Acquisition}
    {releases : List Addr} (hmax : 0 < maxLocks) (hrun : exec (step maxLocks) {} es = some c)
    (hlock : (c.monitor.threadLocals t).ignoreCounterLock = 0)
    (hunlock : (c.monitor.threadLocals t).ignoreCounterUnlock = 0)
    (hk : acquisitions.length < 2 ^ 32)
    (hreleases : releases.Perm (acquisitions.map Acquisition.mu))
    (h : ignoring maxLocks t acquisitions releases c = some c') :
    NoTrace maxLocks t c c' ↔
      ∀ a ∈ acquisitions, a.tryEnter = true → NoRoomFor maxLocks t a.mu c := by
  simp only [ignoring, Option.bind_eq_bind, Option.bind_eq_some_iff] at h
  obtain ⟨c₁, hcounter, c₂, hacquire, hrelease⟩ := h
  have heffect := step_effect hcounter
  have hs₁ := heffect.inv (exec_inv hrun)
  have hcore : c₁.core maxLocks = { c.core maxLocks with
      ignoreLock := Function.update (c.core maxLocks).ignoreLock t acquisitions.length
      ignoreUnlock := Function.update (c.core maxLocks).ignoreUnlock t acquisitions.length } := by
    have hzero : (c.core maxLocks).ignoreLock t = 0 := hlock
    have hzero' : (c.core maxLocks).ignoreUnlock t = 0 := hunlock
    generalize c₁.core maxLocks = s₁ at heffect
    cases heffect with
    | increaseIgnoreCounter => simp only [hzero, hzero', Nat.zero_add, Nat.mod_eq_of_lt hk]
  have hlock₁ : (c₁.core maxLocks).ignoreLock t = acquisitions.length := by
    rw [hcore]
    exact Function.update_self ..
  have hunlock₁ : (c₁.core maxLocks).ignoreUnlock t = acquisitions.length := by
    rw [hcore]
    exact Function.update_self ..
  have hheld₁ : (c₁.core maxLocks).held t = (c.core maxLocks).held t := by rw [hcore]
  have hroom : ∀ mu, NoRoomFor maxLocks t mu c₁ ↔ NoRoomFor maxLocks t mu c :=
    SameHistory.noRoomFor ⟨hheld₁, fun _ _ _ => by rw [hcore]⟩
  have hlength : releases.length = acquisitions.length := by
    rw [hreleases.length_eq, List.length_map]
  obtain ⟨hdown, hsame, hmore⟩ := exec_acquire hmax hs₁ hlock₁.ge hacquire
  have hleft := exec_release (by rw [hdown.ignoreUnlock, hunlock₁, hlength]) hrelease
  have hheld : (c'.core maxLocks).held t = (c₂.core maxLocks).held t := by rw [hleft]
  simp only [← hroom]
  constructor
  · intro hno
    by_contra hnot
    push Not at hnot
    obtain ⟨x, hx⟩ := hmore hnot
    have hback : (c'.core maxLocks).held t = (c.core maxLocks).held t := hno.held
    rw [← hheld, hback, hheld₁] at hx
    exact lt_irrefl _ hx
  · intro hall
    refine ⟨hheld.trans ((hsame hall).trans hheld₁), fun u v => ?_, ?_, ?_⟩
    · have hgraph : c'.monitor.deadlockGraph = (c₂.core maxLocks).graph :=
        congrArg Core.graph hleft
      rw [hgraph, hdown.edge, hcore]
      rfl
    · have hcount : (c'.monitor.threadLocals t).ignoreCounterLock =
          (c₂.core maxLocks).ignoreLock t := congrFun (congrArg Core.ignoreLock hleft) t
      have := hdown.ignoreLock
      omega
    · have hcount : (c'.monitor.threadLocals t).ignoreCounterUnlock =
          (c₂.core maxLocks).ignoreUnlock t - releases.length :=
        (congrFun (congrArg Core.ignoreUnlock hleft) t).trans (Function.update_self ..)
      have := hdown.ignoreUnlock
      omega

/-- One acquisition with `TryEnter`. -/
theorem ignoring_tryEnter : ∃ c', ignoring 1 1 [⟨true, 16, 1⟩] [16] {} = some c' ∧
    (c'.monitor.locksHeld 1 1).n = 1 := by
  have hcomputed : (ignoring 1 1 [⟨true, 16, 1⟩] [16] {}).map
      (fun c => (c.monitor.locksHeld 1 1).n) = some 1 := by
    decide +kernel
  exact Option.map_eq_some_iff.mp hcomputed

theorem ignoring_not_noTrace : ¬ ∀ maxLocks t acquisitions releases es c c', 0 < maxLocks →
    exec (step maxLocks) {} es = some c → (c.monitor.threadLocals t).ignoreCounterLock = 0 →
    (c.monitor.threadLocals t).ignoreCounterUnlock = 0 → acquisitions.length < 2 ^ 32 →
    releases.Perm (acquisitions.map Acquisition.mu) →
    ignoring maxLocks t acquisitions releases c = some c' → NoTrace maxLocks t c c' := by
  intro h
  obtain ⟨c', hc', hn⟩ := ignoring_tryEnter
  have hno := h 1 1 [⟨true, 16, 1⟩] [16] [] {} c' (by decide) rfl rfl rfl (by decide)
    (List.Perm.refl _) hc'
  rw [hno.held] at hn
  cases hn

theorem ignoring_noTrace_iff_sample : ∃ c', ignoring 1 1 [⟨true, 16, 1⟩] [16] {} = some c' ∧
    (NoTrace 1 1 {} c' ↔ ∀ a ∈ [Acquisition.mk true 16 1], a.tryEnter = true →
      NoRoomFor 1 1 a.mu {}) := by
  obtain ⟨c', hc', -⟩ := ignoring_tryEnter
  have hstart : exec (step 1) {} [] = some ({} : Config) := rfl
  exact ⟨c', hc', ignoring_noTrace_iff (by decide) hstart rfl rfl (by decide)
    (List.Perm.refl _) hc'⟩

end Config
end CppGuard
