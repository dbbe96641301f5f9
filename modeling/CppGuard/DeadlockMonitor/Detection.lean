import CppGuard.DeadlockMonitor.Names
import CppGuard.ThreadHistory.Records

/-!
# Exactness of detection

The monitor refines `LockOrder`: its histories record the held locks, and until the first
report the arcs of the graph are the pairs of `before`. The graph is always acyclic, and an
edge is refused when it would close a cycle.
-/
namespace CppGuard
open CountedList Relation Transition ThreadHistory DeadlockMonitor

namespace Config

/-- The thread has room for a lock and does not hold the one that it asks for; nothing is
ignored. -/
def AdmissibleHook (maxLocks : Nat) (c : Config) (t : ThreadId) : Hook → Prop
  | .beforeLock mu => (c.monitor.locksHeld maxLocks t).n < maxLocks ∧
      ∀ l ∈ (c.monitor.locksHeld maxLocks t).entries, l.mu = some mu →
        c.monitor.deadlockGraph.ptr l.id = none
  | .increaseIgnoreCounter _ _ => False
  | _ => True

def Admissible (maxLocks : Nat) (c : Config) (e : Event) : Prop :=
  c.AdmissibleHook maxLocks e.thread e.hook

instance (maxLocks : Nat) (c : Config) (t : ThreadId) :
    ∀ hook, Decidable (c.AdmissibleHook maxLocks t hook)
  | .beforeLock _ => inferInstanceAs (Decidable (_ ∧ _))
  | .increaseIgnoreCounter _ _ => isFalse id
  | .beforeTryLock _ | .inLock _ | .afterLock _ | .deleteLock _ | .cndWait | .setOptions _
  | .threadDelete => isTrue trivial

instance (maxLocks : Nat) (c : Config) (e : Event) : Decidable (c.Admissible maxLocks e) :=
  inferInstanceAs (Decidable (c.AdmissibleHook maxLocks e.thread e.hook))

end Config

/-- The monitor `s` refines the lock order `a`. -/
structure Refines (maxLocks : Nat) (names : GraphId → Incarnation → Prop) (s : Core)
    (a : LockOrder) : Prop where
  inv : s.Inv maxLocks
  ignoreLock : ∀ t, s.ignoreLock t = 0
  ignoreUnlock : ∀ t, s.ignoreUnlock t = 0
  named : Names s.graph a.generation names
  held : ∀ t, Records names Incarnation.addr (s.held t) (a.held t)
  calls : ∀ t, List.Forall₂ (fun call h => call.1 = h.addr ∧ names call.2 h) (s.calls t) (a.calls t)
  before : s.potentialDeadlocksFound = false → ∀ h m, a.before h m ↔ Recorded s.graph names h m

namespace Refines
open CppGuard.Rep

variable {maxLocks : Nat} {names names' : GraphId → Incarnation → Prop} {s s' : Core}
  {a a' : LockOrder} {t : ThreadId} {mu : Addr} {id : GraphId} {g g' : Rep}

theorem records_update {held : ThreadId → SynchLocksHeld} {es : ThreadId → List (Incarnation × Nat)}
    (h : ∀ u, Records names Incarnation.addr (held u) (es u)) {held' : SynchLocksHeld}
    {es' : List (Incarnation × Nat)} (h' : Records names Incarnation.addr held' es')
    (u : ThreadId) : Records names Incarnation.addr (Function.update held t held' u)
      (Function.update es t es' u) := by
  by_cases hu : u = t
  · subst hu
    simpa using h'
  · simpa [hu] using h u

/-- Entries of a history and locks that are held. -/
theorem mem_keys_of_mem (h : Refines maxLocks names s a) {l : LockT}
    (hl : l ∈ (s.held t).entries) : ∃ m ∈ keys (a.held t), names l.id m := by
  obtain ⟨e, he, -, -, hname⟩ := forall₂_mem_left (h.held t) hl
  exact ⟨e.1, mem_keys.mpr ⟨e.2, he⟩, hname⟩

theorem mem_of_mem_keys (h : Refines maxLocks names s a) {m : Incarnation}
    (hm : m ∈ keys (a.held t)) : ∃ l ∈ (s.held t).entries, names l.id m := by
  obtain ⟨n, hn⟩ := mem_keys.mp hm
  obtain ⟨l, hl, -, -, hname⟩ := forall₂_mem_right (h.held t) hn
  exact ⟨l, hl, hname⟩

section Lock

/-! ## `dlc_deadlock_check_before_lock` -/

variable (h : Refines maxLocks names s a) {refused : Option GraphId}
  (hentered : Core.Entered s.graph mu id (s.held t).entries refused g')
include h hentered

theorem named_entered : Names g' a.generation (withName names id (a.current mu)) :=
  h.named.register hentered.keeps.clean hentered.self hentered.live hentered.retired

omit hentered in
/-- The lock that was tried is held and alive. -/
theorem held_of_attempted {x : GraphId} (hx : Attempted s.graph id (s.held t).entries x) :
    ∃ m ∈ keys (a.held t), names x m ∧ a.Alive m := by
  obtain ⟨-, l, hl, rfl⟩ := hx.mem
  obtain ⟨m, hm, hname⟩ := h.mem_keys_of_mem hl
  exact ⟨m, hm, hname, (h.named.live_iff h.inv.clean hname).mp hx.1⟩

/-- Every arc is a pair of the lock order. -/
theorem before_of_recorded (hflag : s.potentialDeadlocksFound = false) {m k : Incarnation}
    (hrec : Recorded g' (withName names id (a.current mu)) m k) :
    a.before m k ∨ m ∈ keys (a.held t) ∧ a.Alive m ∧ k = a.current mu := by
  have hnamed := h.named_entered hentered
  obtain ⟨x, y, hx, hy, harc⟩ := hrec
  obtain harc | ⟨hattempted, rfl⟩ := hentered.arc_new x y harc
  · refine Or.inl ((h.before hflag m k).mpr ?_)
    exact (recorded_iff h.named.total hnamed.right fun _ _ => Or.inl).mp ⟨x, y, hx, hy, harc⟩
  · obtain ⟨m', hm', hname, halive⟩ := h.held_of_attempted hattempted
    obtain rfl := hnamed.right (Or.inl hname) hx
    exact Or.inr ⟨hm', halive, hnamed.right hy (Or.inr ⟨rfl, rfl⟩)⟩

/-- The thread does not hold the lock that it asks for. -/
theorem forall_ne_of_admissible (hadm : ∀ l ∈ (s.held t).entries, l.mu = some mu →
    s.graph.ptr l.id = none) : ∀ l ∈ (s.held t).entries, l.id ≠ id := by
  rintro l hl rfl
  obtain ⟨p, hp, hlive | hretired⟩ := h.inv.held t l hl
  · obtain rfl : p = mu := ((hentered.live _ p).mpr (Or.inl hlive)).addr_inj
      hentered.keeps.clean.toIndexed hentered.self
    exact absurd (hadm l hl hp) (by simp [hlive.ptr_eq h.inv.clean.toIndexed])
  · exact (hentered.retired _ hretired).not_live hentered.keeps.clean.toIndexed hentered.self

omit hentered in
theorem attempted_of_held (hne : ∀ l ∈ (s.held t).entries, l.id ≠ id) {m : Incarnation}
    (hm : m ∈ keys (a.held t)) (halive : a.Alive m) :
    ∃ x, names x m ∧ Attempted s.graph id (s.held t).entries x := by
  obtain ⟨l, hl, hname⟩ := h.mem_of_mem_keys hm
  refine ⟨l.id, hname, (attempted_iff_of_forall_ne hne l.id).mpr ⟨?_, l, hl, rfl⟩⟩
  exact (h.named.live_iff h.inv.clean hname).mpr halive

/-- If no edge was refused, the arcs are the pairs of the lock order. -/
theorem before_iff_recorded (hflag : s.potentialDeadlocksFound = false)
    (hne : ∀ l ∈ (s.held t).entries, l.id ≠ id) (hrefused : refused = none) (m k : Incarnation) :
    (a.before m k ∨ m ∈ keys (a.held t) ∧ a.Alive m ∧ k = a.current mu) ↔
      Recorded g' (withName names id (a.current mu)) m k := by
  constructor
  · rintro (hbefore | ⟨hm, halive, rfl⟩)
    · obtain ⟨x, y, hx, hy, harc⟩ := (h.before hflag m k).mp hbefore
      exact ⟨x, y, Or.inl hx, Or.inl hy, hentered.arc_mono x y harc⟩
    · obtain ⟨x, hx, hattempted⟩ := h.attempted_of_held hne hm halive
      exact ⟨x, id, Or.inl hx, Or.inr ⟨rfl, rfl⟩, hentered.accepted hrefused x hattempted⟩
  · exact h.before_of_recorded hentered hflag

/-- If an edge was refused, the lock order has a cycle. -/
theorem cyclic_of_refused (hflag : s.potentialDeadlocksFound = false) {other : GraphId}
    (hrefused : refused = some other) : ∃ m, TransGen (fun m k => a.before m k ∨
      m ∈ keys (a.held t) ∧ a.Alive m ∧ k = a.current mu) m m := by
  have hnamed := h.named_entered hentered
  obtain ⟨hattempted, hpath⟩ := hentered.cycle other hrefused
  obtain ⟨m, hm, hname, halive⟩ := h.held_of_attempted hattempted
  obtain ⟨m', hname', hrecorded⟩ := recorded_path hnamed.total (Or.inr ⟨rfl, rfl⟩) hpath
  obtain rfl := hnamed.right hname' (Or.inl hname)
  refine ⟨a.current mu, TransGen.tail' ?_ (Or.inr ⟨hm, halive, rfl⟩)⟩
  exact ReflTransGen.mono (fun m k hrec => h.before_of_recorded hentered hflag hrec) _ _ hrecorded

end Lock

/-! ## Steps -/

theorem forall₂_getElem? {α β : Type*} {R : α → β → Prop} {l : List α} {l' : List β}
    (h : List.Forall₂ R l l') {i : Nat} {x : α} (hx : l[i]? = some x) :
    ∃ y, l'[i]? = some y ∧ R x y := by
  induction h generalizing i with
  | nil => simp at hx
  | @cons b c l l' hbc _ ih =>
    cases i with
    | zero =>
      obtain rfl : b = x := by simpa using hx
      exact ⟨c, rfl, hbc⟩
    | succ i => exact ih hx

theorem records_withName (h : Refines maxLocks names s a) (mu : Addr) (id : GraphId)
    (u : ThreadId) :
    Records (withName names id (a.current mu)) Incarnation.addr (s.held u) (a.held u) :=
  (h.held u).mono fun _ _ => Or.inl

theorem calls_withName (h : Refines maxLocks names s a) (mu : Addr) (id : GraphId) (u : ThreadId) :
    List.Forall₂ (fun call m => call.1 = m.addr ∧ withName names id (a.current mu) call.2 m)
      (s.calls u) (a.calls u) :=
  (h.calls u).imp fun _ _ hc => ⟨hc.1, Or.inl hc.2⟩

theorem calls_ask (h : Refines maxLocks names s a) (t : ThreadId) (mu : Addr) (id : GraphId)
    (u : ThreadId) :
    List.Forall₂ (fun call m => call.1 = m.addr ∧ withName names id (a.current mu) call.2 m)
      ((s.called t mu id).calls u) ((a.ask t mu).calls u) := by
  have hcalls := h.calls_withName mu id u
  by_cases hu : u = t
  · subst hu
    simp only [Core.called, LockOrder.ask, Function.update_self]
    exact .cons ⟨rfl, Or.inr ⟨rfl, rfl⟩⟩ hcalls
  · simpa [Core.called, LockOrder.ask, hu] using hcalls

/-- A hook that registers `mu` and changes only the calls of thread `t`. -/
theorem register (h : Refines maxLocks names s a) (hs' : s'.Inv maxLocks)
    (hgot : GotId mu id s.graph s'.graph) (ignoreLock : ∀ t, s'.ignoreLock t = 0)
    (ignoreUnlock : ∀ t, s'.ignoreUnlock t = 0)
    (flag : s'.potentialDeadlocksFound = s.potentialDeadlocksFound)
    (generation : a'.generation = a.generation) (before : a'.before = a.before)
    (held : ∀ t, Records (withName names id (a.current mu)) Incarnation.addr
      (s'.held t) (a'.held t))
    (calls : ∀ t, List.Forall₂ (fun call m => call.1 = m.addr ∧
      withName names id (a.current mu) call.2 m) (s'.calls t) (a'.calls t)) :
    Refines maxLocks (withName names id (a.current mu)) s' a' := by
  have hnamed := h.named.register hgot.clean hgot.self hgot.live hgot.retired
  refine ⟨hs', ignoreLock, ignoreUnlock, generation ▸ hnamed, held, calls, fun hflag m k => ?_⟩
  rw [before, h.before (flag ▸ hflag), ← recorded_iff h.named.total hnamed.right fun _ _ => Or.inl]
  exact exists_congr fun x => exists_congr fun y =>
    and_congr_right fun _ => and_congr_right fun _ => (hgot.arc x y).symm

theorem released {held' : SynchLocksHeld} (h : Refines maxLocks names s a)
    (hgot : GotId mu id s.graph g)
    (hafter : updateLockHistoryAfterLock t mu id (s.held t) = .ok held') :
    Records (withName names id (a.current mu)) Incarnation.addr held'
      (release (a.current mu) (a.held t)) := by
  have hnamed := h.named.register hgot.clean hgot.self hgot.live hgot.retired
  exact ((h.records_withName mu id t).of_afterLock (h.inv.valid t) hnamed.left hnamed.right
    (Or.inr ⟨rfl, rfl⟩) hafter).2

theorem notReleased {report : Report} (h : Refines maxLocks names s a)
    (hgot : GotId mu id s.graph g)
    (hafter : updateLockHistoryAfterLock t mu id (s.held t) = .error report) :
    Records (withName names id (a.current mu)) Incarnation.addr (s.held t)
      (release (a.current mu) (a.held t)) := by
  have hnamed := h.named.register hgot.clean hgot.self hgot.live hgot.retired
  have hheld := h.records_withName mu id t
  rw [release_absent (hheld.notMem_of_afterLock (h.inv.valid t) hnamed.left (Or.inr ⟨rfl, rfl⟩)
    hafter)]
  exact hheld

theorem lock_step (h : Refines maxLocks names s a) (hs' : s'.Inv maxLocks)
    {refused : Option GraphId} (hlocked : Core.Locked s t mu id refused s')
    (hadm : ∀ l ∈ (s.held t).entries, l.mu = some mu → s.graph.ptr l.id = none) (now : Nat) :
    Refines maxLocks (withName names id (a.current mu)) s'
      (a.step maxLocks ⟨t, .beforeLock mu, now⟩) ∧
    (s.potentialDeadlocksFound = false → s'.potentialDeadlocksFound = true →
      (a.step maxLocks ⟨t, .beforeLock mu, now⟩).Cyclic) := by
  have hentered := hlocked.entered
  have hne := h.forall_ne_of_admissible hentered hadm
  refine ⟨⟨hs', fun u => ?_, fun u => ?_, h.named_entered hentered, fun u => ?_, fun u => ?_, ?_⟩,
    ?_⟩
  · rw [hlocked.ignoreLock]
    exact h.ignoreLock u
  · rw [hlocked.ignoreUnlock]
    exact h.ignoreUnlock u
  · exact (h.records_withName mu id u).of_entries_eq (hlocked.entries u)
  · rw [hlocked.calls]
    exact h.calls_ask t mu id u
  · intro hflag
    obtain ⟨hrefused, hsame, -⟩ | ⟨-, hfound, -⟩ := hlocked.outcome
    · exact h.before_iff_recorded hentered (hsame ▸ hflag) hne hrefused
    · cases hflag.symm.trans hfound
  · intro hflag hfound
    obtain ⟨-, hsame, -⟩ | ⟨⟨other, hrefused⟩, -⟩ := hlocked.outcome
    · rw [hsame, hflag] at hfound
      cases hfound
    · exact h.cyclic_of_refused hentered hflag hrefused

theorem remove_step (h : Refines maxLocks names s a) (hs' : s'.Inv maxLocks)
    (hremoved : RemovedAddr mu s.graph s'.graph)
    (ignoreLock : s'.ignoreLock = s.ignoreLock) (ignoreUnlock : s'.ignoreUnlock = s.ignoreUnlock)
    (calls : s'.calls = s.calls) (held : s'.held = s.held)
    (flag : s'.potentialDeadlocksFound = s.potentialDeadlocksFound) (now : Nat) :
    Refines maxLocks names s' (a.step maxLocks ⟨t, .deleteLock mu, now⟩) := by
  refine ⟨hs', fun u => ?_, fun u => ?_, h.named.remove hremoved, fun u => ?_, fun u => ?_,
    fun hflag m k => ?_⟩
  · rw [ignoreLock]
    exact h.ignoreLock u
  · rw [ignoreUnlock]
    exact h.ignoreUnlock u
  · rw [held]
    exact h.held u
  · rw [calls]
    exact h.calls u
  · have hcurrent : ∀ x m, names x m → (∃ p, s.graph.Live x p) →
        (m ≠ a.current mu ↔ ¬ s.graph.Live x mu) := by
      rintro x m hxm ⟨p, hp⟩
      obtain rfl := h.named.eq_of_live hp hxm
      constructor
      · rintro hne hmu
        obtain rfl := hp.addr_inj h.inv.clean.toIndexed hmu
        exact hne rfl
      · intro hno heq
        obtain rfl : p = mu := congrArg Incarnation.addr heq
        exact hno hp
    simp only [LockOrder.step, h.before (flag ▸ hflag)]
    constructor
    · rintro ⟨⟨x, y, hx, hy, harc⟩, hm, hk⟩
      exact ⟨x, y, hx, hy, (hremoved.arc x y).mpr
        ⟨harc, (hcurrent x m hx harc.1).mp hm, (hcurrent y k hy harc.2.1).mp hk⟩⟩
    · rintro ⟨x, y, hx, hy, harc⟩
      obtain ⟨harc, hnx, hny⟩ := (hremoved.arc x y).mp harc
      exact ⟨⟨x, y, hx, hy, harc⟩, (hcurrent x m hx harc.1).mpr hnx,
        (hcurrent y k hy harc.2.1).mpr hny⟩

/-- One hook. -/
theorem step {now : Nat} {hook : Hook} (h : Refines maxLocks names s a)
    (hlock : ∀ mu, hook = .beforeLock mu → (s.held t).n < maxLocks ∧
      ∀ l ∈ (s.held t).entries, l.mu = some mu → s.graph.ptr l.id = none)
    (hincrease : ∀ i j, hook ≠ .increaseIgnoreCounter i j)
    (heffect : Core.Effect maxLocks s t now hook s') :
    ∃ names', Refines maxLocks names' s' (a.step maxLocks ⟨t, hook, now⟩) ∧
      (s.potentialDeadlocksFound = false → s'.potentialDeadlocksFound = true →
        (a.step maxLocks ⟨t, hook, now⟩).Cyclic) := by
  have hs' := heffect.inv h.inv
  have noReport : s'.potentialDeadlocksFound = s.potentialDeadlocksFound →
      s.potentialDeadlocksFound = false → s'.potentialDeadlocksFound = true →
        (a.step maxLocks ⟨t, hook, now⟩).Cyclic := by
    intro hsame hflag hfound
    rw [hsame, hflag] at hfound
    cases hfound
  by_cases hbefore : ∃ mu, hook = .beforeLock mu
  · obtain ⟨mu, rfl⟩ := hbefore
    obtain ⟨id, refused, hlocked⟩ := heffect.locked h.inv (h.ignoreLock t) (hlock mu rfl).1
    exact ⟨_, h.lock_step hs' hlocked (hlock mu rfl).2 now⟩
  cases heffect with
  | lockIgnored | lockFull | lock | lockRefused => exact absurd ⟨_, rfl⟩ hbefore
  | @tryLock mu id g hid =>
    have hgot := h.inv.clean.getId_arc hid
    refine ⟨_, h.register hs' hgot (fun u => ?_) h.ignoreUnlock rfl rfl rfl (fun u => ?_)
      (h.calls_ask t mu id), noReport rfl⟩
    · grind [Function.update_apply, h.ignoreLock]
    · refine (h.records_withName mu id u).of_entries_eq ?_
      grind [Function.update_apply, entries_arm]
  | @inLock call mu id hcall hne =>
    obtain ⟨m, hm, hmu, hname⟩ := forall₂_getElem? (h.calls t) hcall
    obtain rfl : mu = m.addr := hmu
    refine ⟨names, ⟨hs', h.ignoreLock, h.ignoreUnlock, ?_, ?_, ?_, ?_⟩, noReport rfl⟩ <;>
      simp only [LockOrder.step, hm]
    · exact h.named
    · exact records_update h.held
        ((h.held t).inLock (h.inv.valid t) h.named.left h.named.right hname)
    · exact h.calls
    · exact h.before
  | unlockIgnored hignore => exact absurd (h.ignoreUnlock t) (Nat.pos_iff_ne_zero.mp hignore)
  | @unlock mu id g held' _ hid hafter =>
    have hgot := h.inv.clean.getId_arc hid
    refine ⟨_, h.register hs' hgot h.ignoreLock h.ignoreUnlock rfl rfl rfl
      (records_update (h.records_withName mu id) ?_) (h.calls_withName mu id), noReport rfl⟩
    exact (h.released hgot hafter).of_entries_eq (entries_disarm _)
  | @unlockError mu id g report _ hid hafter =>
    have hgot := h.inv.clean.getId_arc hid
    refine ⟨_, h.register hs' hgot h.ignoreLock h.ignoreUnlock rfl rfl rfl
      (records_update (h.records_withName mu id) ?_) (h.calls_withName mu id), noReport rfl⟩
    exact (h.notReleased hgot hafter).of_entries_eq (entries_disarm _)
  | @delete mu g hg =>
    exact ⟨_, h.remove_step hs' (h.inv.clean.removed hg) rfl rfl rfl rfl rfl now, noReport rfl⟩
  | @deleteHeld mu g hg =>
    exact ⟨_, h.remove_step hs' (h.inv.clean.removed hg) rfl rfl rfl rfl rfl now, noReport rfl⟩
  | cndWait =>
    refine ⟨_, ⟨hs', h.ignoreLock, h.ignoreUnlock, h.named, fun u => ?_, h.calls, h.before⟩,
      noReport rfl⟩
    refine (h.held u).of_entries_eq ?_
    grind [Function.update_apply, SynchLocksHeld.entries]
  | @increaseIgnoreCounter i j => exact absurd rfl (hincrease i j)
  | setOptions =>
    exact ⟨_, ⟨hs', h.ignoreLock, h.ignoreUnlock, h.named, h.held, h.calls, h.before⟩, noReport rfl⟩
  | threadDelete =>
    refine ⟨_, ⟨hs', fun u => ?_, fun u => ?_, h.named, records_update h.held ?_, fun u => ?_,
      h.before⟩, noReport rfl⟩
    · grind [Function.update_apply, h.ignoreLock]
    · grind [Function.update_apply, h.ignoreUnlock]
    · simp [Records, SynchLocksHeld.new, SynchLocksHeld.entries]
    · by_cases hu : u = t
      · simp [hu, LockOrder.step]
      · simpa [hu, LockOrder.step] using h.calls u

theorem initial (maxLocks : Nat) :
    Refines maxLocks (fun _ _ => False) (Config.core maxLocks {}) {} := by
  refine ⟨Core.inv_initial maxLocks, fun _ => rfl, fun _ => rfl, ⟨?_, ?_, ?_, ?_⟩, fun t => ?_,
    fun t => .nil, fun _ h m => ?_⟩
  · exact fun _ _ _ hx => hx.elim
  · exact fun _ _ _ hx => hx.elim
  · exact fun x p hx => absurd hx (not_live_empty x p)
  · exact fun _ _ hx => hx.elim
  · simp [Records, Config.core, locksHeld, SynchLocksHeld.new, SynchLocksHeld.entries]
  · constructor
    · exact False.elim
    · rintro ⟨_, _, hx, -⟩
      exact hx.elim

end Refines

namespace Config

variable {maxLocks : Nat} {c c' : Config} {a : LockOrder} {e : Event} {es : List Event}

theorem refines_step (h : ∃ names, Refines maxLocks names (c.core maxLocks) a)
    (hadm : c.Admissible maxLocks e) (hstep : step maxLocks c e = some c') :
    (∃ names, Refines maxLocks names (c'.core maxLocks) (a.step maxLocks e)) ∧
      (c.monitor.potentialDeadlocksFound = false → c'.monitor.potentialDeadlocksFound = true →
        (a.step maxLocks e).Cyclic) := by
  obtain ⟨names, h⟩ := h
  obtain ⟨t, hook, now⟩ := e
  obtain ⟨names', h', hcyclic⟩ := h.step
    (by rintro mu rfl; exact hadm) (by rintro i j rfl; exact hadm) (step_effect hstep)
  exact ⟨⟨names', h'⟩, hcyclic⟩

theorem refines_run (h : exec (step maxLocks) {} es = some c)
    (along : Along (Admissible maxLocks) (step maxLocks) {} es) :
    ∃ names, Refines maxLocks names (c.core maxLocks) (LockOrder.run maxLocks es) :=
  exec_simulation (I := fun c a => ∃ names, Refines maxLocks names (c.core maxLocks) a)
    (fun _ _ _ _ h hadm hstep => (refines_step h hadm hstep).1)
    ⟨_, Refines.initial maxLocks⟩ h along

/-- A deadlock was found if and only if the lock order had a cycle at some time. -/
theorem potentialDeadlocksFound_iff (h : exec (step maxLocks) {} es = some c)
    (along : Along (Admissible maxLocks) (step maxLocks) {} es) :
    c.monitor.potentialDeadlocksFound = true ↔
      ∃ fs, fs <+: es ∧ (LockOrder.run maxLocks fs).Cyclic := by
  constructor
  · intro hfound
    induction es using List.reverseRecOn generalizing c with
    | nil =>
      obtain rfl := Option.some.inj h
      cases hfound
    | append_singleton es e ih =>
      obtain ⟨u, hu, hstep⟩ := exec_concat.mp h
      obtain ⟨halong, hadm, -⟩ := (along_append hu).mp along
      cases hflag : u.monitor.potentialDeadlocksFound with
      | true =>
        obtain ⟨fs, hfs, hcyclic⟩ := ih hu halong hflag
        exact ⟨fs, hfs.trans (List.prefix_append es [e]), hcyclic⟩
      | false =>
        have hcyclic := (refines_step (refines_run hu halong) hadm hstep).2 hflag hfound
        exact ⟨es ++ [e], List.prefix_rfl, by simpa [LockOrder.run] using hcyclic⟩
  · rintro ⟨fs, ⟨gs, rfl⟩, m, hcycle⟩
    obtain ⟨u, hu, hgs⟩ := exec_append.mp h
    obtain ⟨names, hrefines⟩ := refines_run hu ((along_append hu).mp along).1
    have hfound : u.monitor.potentialDeadlocksFound = true := by
      cases hflag : u.monitor.potentialDeadlocksFound with
      | true => rfl
      | false =>
        refine absurd (TransGen.mono (fun h k hbefore => ?_) _ _ hcycle)
          (recorded_acyclic hrefines.named.left hrefines.inv.clean m)
        exact (hrefines.before hflag h k).mp hbefore
    have hstep : ∀ c e c', c.monitor.potentialDeadlocksFound = true →
        step maxLocks c e = some c' → c'.monitor.potentialDeadlocksFound = true :=
      fun _ _ _ hs h => (step_effect h).flag_mono hs
    exact exec_invariant hstep hfound hgs

/-- The locks 16 and 32 are taken in both orders by two threads, but first 32 is deleted and
created again. -/
def crossing : List Event :=
  [⟨1, .beforeLock 16, 1⟩, ⟨1, .inLock 0, 1⟩, ⟨1, .beforeTryLock 32, 1⟩, ⟨1, .inLock 0, 1⟩,
   ⟨1, .afterLock 32, 1⟩, ⟨2, .deleteLock 32, 1⟩, ⟨1, .beforeLock 32, 1⟩, ⟨1, .inLock 0, 1⟩,
   ⟨1, .afterLock 16, 1⟩, ⟨1, .afterLock 32, 1⟩, ⟨2, .beforeLock 32, 1⟩, ⟨2, .inLock 0, 1⟩,
   ⟨2, .beforeLock 16, 1⟩]

theorem potentialDeadlocksFound_iff_sample :
    ∃ fs, fs <+: crossing ∧ (LockOrder.run 20 fs).Cyclic := by
  have hfound : (exec (step 20) {} crossing).map (·.monitor.potentialDeadlocksFound) =
      some true := by decide +kernel
  obtain ⟨c, hrun, hflag⟩ := Option.map_eq_some_iff.mp hfound
  exact (potentialDeadlocksFound_iff hrun (by decide +kernel)).mp hflag

end Config
end CppGuard
