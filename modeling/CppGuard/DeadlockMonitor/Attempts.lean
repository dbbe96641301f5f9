import CppGuard.DeadlockMonitor.Report
import Mathlib.Data.List.MinMax

/-!
# The attempts behind a report

A node keeps one snapshot, the edges into it may come from many calls. `Traced` adds to a run
of the monitor the list of the calls of `dlc_deadlock_check_before_lock` that reached the graph.
The list accounts for the graph: an edge was inserted by one of these calls, and a snapshot is
that of the first one with the most held locks.
-/
namespace CppGuard
open Relation Transition DeadlockMonitor

/-- A call of `dlc_deadlock_check_before_lock` that returned an id, with the history that the
thread had then. -/
structure Attempt where
  id : GraphId
  thread : ThreadId
  held : SynchLocksHeld
  deriving DecidableEq

namespace Attempt

/-- The lock at `p`, known as `a`, was held during the attempt. -/
def Holds (A : Attempt) (a : GraphId) (p : Addr) : Prop :=
  ∃ l ∈ A.held.entries, l.id = a ∧ l.mu = some p

/-- What `UpdateStackTrace` records of the attempt. -/
def snapshot (A : Attempt) : Node where
  priority := A.held.n + 1
  threadId := some A.thread
  holdLocks := A.held.locks
  holdLocksCount := A.held.n % 2 ^ 8

/-- The first of the attempts with the most held locks. -/
def longest (attempts : List Attempt) : Option Attempt := attempts.argmax (·.held.n)

theorem longest_concat (attempts : List Attempt) (A : Attempt) :
    longest (attempts ++ [A]) = some (match longest attempts with
      | none => A
      | some B => if B.held.n < A.held.n then A else B) := by
  rw [longest, List.argmax_concat, ← longest]
  cases longest attempts with
  | none => rfl
  | some B =>
    simp only
    split_ifs <;> rfl

/-- The attempts on one lock. -/
def onLock (attempts : List Attempt) (id : GraphId) : List Attempt :=
  attempts.filter (·.id = id)

theorem onLock_concat (attempts : List Attempt) (A : Attempt) (id : GraphId) :
    onLock (attempts ++ [A]) id =
      if A.id = id then onLock attempts id ++ [A] else onLock attempts id := by
  split_ifs with hid <;> simp [onLock, hid]

/-- `n` is a node of which the attempts were recorded. -/
def Recorded (attempts : List Attempt) (n : Node) : Prop :=
  match longest attempts with
  | none => n.priority = 0
  | some A => n.snapshot = A.snapshot

theorem Recorded.congr {attempts : List Attempt} {n n' : Node} (h : Recorded attempts n)
    (hsnapshot : n'.snapshot = n.snapshot) : Recorded attempts n' := by
  unfold Recorded at *
  cases hlongest : longest attempts with
  | none =>
    simp only [hlongest] at h ⊢
    exact (Node.snapshot_field hsnapshot Node.priority fun _ => rfl).trans h
  | some A =>
    simp only [hlongest] at h ⊢
    exact hsnapshot.trans h

/-- The priority of a node counts the locks of the longest attempt. -/
theorem Recorded.priority {attempts : List Attempt} {n : Node} (h : Recorded attempts n) :
    n.priority = (longest attempts).elim 0 (·.held.n + 1) := by
  unfold Recorded at h
  cases hlongest : longest attempts with
  | none => simpa only [hlongest, Option.elim_none] using h
  | some A =>
    simp only [hlongest] at h
    exact congrArg Node.priority h

end Attempt

namespace Rep
open Attempt

/-- `UpdateStackTrace` compares with the snapshot of the longest attempt so far. -/
theorem recorded_updateStackTrace {g : Rep} (hg : g.Indexed) {id : GraphId} {p : Addr}
    (hid : g.Live id p) {attempts : List Attempt} {A : Attempt}
    (h : Recorded attempts (g.node (nodeIndex id))) :
    Recorded (attempts ++ [A])
        ((g.updateStackTrace id A.thread A.held).node (nodeIndex id)) ∧
      ∀ i, i ≠ nodeIndex id → (g.updateStackTrace id A.thread A.held).node i = g.node i := by
  have hi : nodeIndex id < g.size := lt_size_of_maskedPtr (hid.at_index hg).1
  have hpriority := h.priority
  by_cases hkeep : A.held.n + 1 ≤ (g.node (nodeIndex id)).priority
  · rw [hid.updateStackTrace_eq hg, if_pos hkeep]
    refine ⟨?_, fun _ _ => rfl⟩
    rw [Recorded, longest_concat]
    unfold Recorded at h
    cases hlongest : longest attempts with
    | none =>
      rw [hlongest, Option.elim_none] at hpriority
      omega
    | some B =>
      rw [hlongest, Option.elim_some] at hpriority
      have hlonger : ¬ B.held.n < A.held.n := by omega
      simpa only [hlongest, if_neg hlonger] using h
  · rw [hid.updateStackTrace_eq hg, if_neg hkeep]
    refine ⟨?_, fun i hne => node_modify_of_ne _ hne⟩
    rw [node_modify_self _ hi, Recorded, longest_concat]
    cases hlongest : longest attempts with
    | none => rfl
    | some B =>
      rw [hlongest, Option.elim_some] at hpriority
      have hlonger : B.held.n < A.held.n := by omega
      simp only [if_pos hlonger]
      rfl

/-- The attempts account for the edges and the snapshots of a graph. -/
structure Accounted (g : Rep) (attempts : List Attempt) : Prop where
  issued : ∀ A ∈ attempts, ∃ p, g.Issued A.id p
  recorded : ∀ id p, g.Live id p → Recorded (onLock attempts id) (g.node (nodeIndex id))
  arc : ∀ x y p, g.Live x p → g.Arc x y → ∃ A ∈ attempts, A.id = y ∧ A.Holds x p

variable {g g' : Rep} {attempts : List Attempt} {id : GraphId} {mu : Addr}

theorem accounted_empty : ({} : Rep).Accounted [] :=
  ⟨by simp, fun id p hid => absurd hid (not_live_empty id p),
    fun x _ p hx => absurd hx (not_live_empty x p)⟩

theorem eq_of_nodeIndex_eq (hg : g.Indexed) {a b : GraphId} {p q : Addr} (ha : g.Live a p)
    (hb : g.Live b q) (h : nodeIndex a = nodeIndex b) : a = b := by
  rw [(ha.at_index hg).2, (hb.at_index hg).2, h]

/-- A fresh id has no attempts: the ids of attempts stay issued. -/
theorem Accounted.getId (h : g.Accounted attempts) (hgot : GotId mu id g g') :
    g'.Accounted attempts := by
  refine ⟨fun A hA => (h.issued A hA).imp fun p => hgot.keeps.issued A.id p, ?_, ?_⟩
  · intro a p ha
    obtain rfl | ⟨hsnapshot, hpriority, habsent⟩ := hgot.snapshot
    · exact h.recorded a p ha
    obtain hold | ⟨rfl, rfl⟩ := (hgot.live a p).mp ha
    · have hne : nodeIndex a ≠ nodeIndex id := by
        intro heq
        obtain rfl := eq_of_nodeIndex_eq hgot.clean.toIndexed ha hgot.self heq
        exact habsent a (ha.addr_inj hgot.clean.toIndexed hgot.self ▸ hold)
      exact (h.recorded a p hold).congr (hsnapshot _ hne)
    · have hnone : onLock attempts a = [] := by
        refine List.filter_eq_nil_iff.mpr fun A hA hid => ?_
        obtain rfl : A.id = a := by simpa using hid
        obtain ⟨q, hlive | hretired⟩ := h.issued A hA
        · have hq := ((hgot.live A.id q).mpr (Or.inl hlive)).addr_inj hgot.clean.toIndexed ha
          exact habsent A.id (hq ▸ hlive)
        · exact (hgot.retired A.id hretired).not_live hgot.clean.toIndexed ha
      rw [hnone]
      exact hpriority
  · intro x y p hx hxy
    have hold := (hgot.arc x y).mp hxy
    obtain ⟨q, hq⟩ := hold.1
    obtain rfl := ((hgot.live x q).mpr (Or.inl hq)).addr_inj hgot.clean.toIndexed hx
    exact h.arc x y q hq hold

theorem Accounted.removeNode (h : g.Accounted attempts) (hremoved : RemovedAddr mu g g') :
    g'.Accounted attempts := by
  refine ⟨fun A hA => (h.issued A hA).imp fun p => hremoved.keeps.issued A.id p, ?_, ?_⟩
  · intro a p ha
    exact (h.recorded a p ((hremoved.live a p).mp ha).1).congr (hremoved.snapshot _)
  · intro x y p hx hxy
    exact h.arc x y p ((hremoved.live x p).mp hx).1 ((hremoved.arc x y).mp hxy).1

end Rep

namespace Core
open CppGuard.Rep Attempt

variable {maxLocks now : Nat} {s s' : Core} {t : ThreadId} {attempts : List Attempt}
  {mu : Addr} {id : GraphId} {g g' : Rep}

/-- The attempt that a step makes, if it is a call of `dlc_deadlock_check_before_lock` that
returned an id. -/
def made (s : Core) (t : ThreadId) (hook : Hook) (s' : Core) : List Attempt :=
  match hook, (s'.calls t).head? with
  | .beforeLock _, some (_, id) =>
    if id = invalidGraphId then [] else [⟨id, t, s.held t⟩]
  | _, _ => []

/-- The call on `id` takes the snapshot before it tries the edges, and is the attempt behind
the new ones. -/
theorem Inv.accounted (hs : s.Inv maxLocks) (hacc : s.graph.Accounted attempts)
    {refused : Option GraphId} (hid : s.graph.getId maxLocks t mu = some (id, g))
    (hcheck : checkHeldLocks id (s.held t).entries (g.updateStackTrace id t (s.held t)) =
      some (refused, g')) :
    g'.Accounted (attempts ++ [⟨id, t, s.held t⟩]) := by
  have hgot := hs.clean.getId_arc hid
  have hchecked := hs.checked hid hcheck
  have h := hacc.getId hgot
  have hg := hgot.clean.toIndexed
  obtain ⟨hids, -, -, harc⟩ := hgot.clean.updateStackTrace_arc id t (s.held t)
  have hsame := hids.trans hchecked.sameIds
  have hsnapshot := hchecked.sameIdent.field Node.snapshot fun _ => rfl
  obtain ⟨hself, hother⟩ := recorded_updateStackTrace (A := ⟨id, t, s.held t⟩) hg hgot.self
    (h.recorded id mu hgot.self)
  refine ⟨fun A hA => ?_, fun a p ha => ?_, fun x y p hx hxy => ?_⟩
  · obtain hA | hA := List.mem_append.mp hA
    · exact (h.issued A hA).imp fun p => hsame.keeps.issued A.id p
    · obtain rfl := List.mem_singleton.mp hA
      exact ⟨mu, Or.inl ((hsame.live id mu).mpr hgot.self)⟩
  · have hlive := (hsame.live a p).mp ha
    rw [onLock_concat]
    split_ifs with heq
    · subst heq
      exact hself.congr (hsnapshot _)
    · have hne : nodeIndex a ≠ nodeIndex id :=
        fun h => heq (eq_of_nodeIndex_eq hg hlive hgot.self h).symm
      exact (h.recorded a p hlive).congr ((hsnapshot _).trans (congrArg _ (hother _ hne)))
  · have hlive := (hsame.live x p).mp hx
    obtain hold | ⟨⟨-, l, hl, rfl⟩, rfl⟩ := hchecked.arc_new x y hxy
    · obtain ⟨A, hA, hrest⟩ := h.arc x y p hlive ((harc x y).mp hold)
      exact ⟨A, List.mem_append_left _ hA, hrest⟩
    · have hmem := (List.takeWhile_prefix _).subset hl
      obtain ⟨q, hmu, hissued⟩ := (hs.setGraph hgot.keeps).held t l hmem
      have hq : q = p := by
        obtain hissued | hissued := hissued
        · exact hissued.addr_inj hg hlive
        · exact absurd hlive (hissued.not_live hg)
      exact ⟨_, List.mem_append_right _ (List.mem_singleton_self _), rfl, l, hmem, rfl, hq ▸ hmu⟩

theorem Effect.accounted {hook : Hook} (h : Effect maxLocks s t now hook s')
    (hs : s.Inv maxLocks) (hacc : s.graph.Accounted attempts) :
    s'.graph.Accounted (attempts ++ made s t hook s') := by
  have got : ∀ {mu id g}, s.graph.getId maxLocks t mu = some (id, g) → g.Accounted attempts :=
    fun hid => hacc.getId (hs.clean.getId_arc hid)
  have valid : ∀ {mu id g}, s.graph.getId maxLocks t mu = some (id, g) →
      id ≠ invalidGraphId := by
    intro mu id g hid
    have hgot := hs.clean.getId_arc hid
    exact hgot.self.ne_invalid hgot.clean.toIndexed
  have removed : ∀ {mu g}, s.graph.removeNode mu = some g → g.Accounted attempts :=
    fun hg => hacc.removeNode (hs.clean.removed hg)
  cases h with
  | lock _ _ hid hcheck => simpa [made, called, valid hid] using hs.accounted hacc hid hcheck
  | lockRefused _ _ hid hcheck =>
    simpa [made, called, valid hid] using hs.accounted hacc hid hcheck
  | tryLock hid => simpa [made] using got hid
  | unlock _ hid => simpa [made] using got hid
  | unlockError _ hid => simpa [made] using got hid
  | delete hg => simpa [made] using removed hg
  | deleteHeld hg => simpa [made] using removed hg
  | _ => simpa [made, called] using hacc

end Core

/-- A run with the attempts made so far. -/
structure Traced where
  config : Config := {}
  attempts : List Attempt := []

namespace Traced

def step (maxLocks : Nat) (s : Traced) (e : Event) : Option Traced :=
  (s.config.step maxLocks e).map fun c =>
    ⟨c, s.attempts ++ (s.config.core maxLocks).made e.thread e.hook (c.core maxLocks)⟩

/-- Every run of the monitor can be traced. -/
theorem exists_exec_traced {maxLocks : Nat} {s : Traced} {es : List Event} {c : Config}
    (h : exec (Config.step maxLocks) s.config es = some c) :
    ∃ attempts, exec (step maxLocks) s es = some ⟨c, attempts⟩ := by
  induction es generalizing s with
  | nil =>
    obtain rfl := Option.some.inj h
    exact ⟨s.attempts, rfl⟩
  | cons e es ih =>
    obtain ⟨d, hd, hes⟩ := exec_cons.mp h
    have hstep : step maxLocks s e = some
        ⟨d, s.attempts ++ (s.config.core maxLocks).made e.thread e.hook (d.core maxLocks)⟩ := by
      rw [step, hd, Option.map_some]
    obtain ⟨attempts, hrun⟩ := ih (s := ⟨d, _⟩) hes
    exact ⟨attempts, exec_cons.mpr ⟨_, hstep, hrun⟩⟩

theorem exec_accounted {maxLocks : Nat} {es : List Event} {s : Traced}
    (h : exec (step maxLocks) {} es = some s) :
    (s.config.core maxLocks).Inv maxLocks ∧
      s.config.monitor.deadlockGraph.Accounted s.attempts := by
  have hstep : ∀ (s : Traced) e s', ((s.config.core maxLocks).Inv maxLocks ∧
      s.config.monitor.deadlockGraph.Accounted s.attempts) → step maxLocks s e = some s' →
      (s'.config.core maxLocks).Inv maxLocks ∧
        s'.config.monitor.deadlockGraph.Accounted s'.attempts := by
    rintro s e s' ⟨hs, hacc⟩ h
    obtain ⟨c, hc, rfl⟩ := Option.map_eq_some_iff.mp h
    have heffect := Config.step_effect hc
    exact ⟨heffect.inv hs, heffect.accounted hs hacc⟩
  exact exec_invariant hstep ⟨Core.inv_initial maxLocks, Rep.accounted_empty⟩ h

end Traced

/-! ## The blocks of a report -/

/-- The block shows the attempt; with more locks than that, `hold_locks_count` wraps. -/
structure Shows (B : Attempt) (block : PathEntry) : Prop where
  threadId : block.threadId = some B.thread
  holdingLocks : B.held.n < 2 ^ 8 → block.holdingLocks = B.held.entries.map LockT.mu

theorem Shows.mem {B : Attempt} {block : PathEntry} (h : Shows B block) (hn : B.held.n < 2 ^ 8)
    {a : GraphId} {p : Addr} (hholds : B.Holds a p) : some p ∈ block.holdingLocks := by
  obtain ⟨l, hl, -, hmu⟩ := hholds
  rw [h.holdingLocks hn, ← hmu]
  exact List.mem_map_of_mem hl

/-- Two blocks that follow each other in a report, with their ids. The lock of `b` was attempted
while the lock of `a` was held, but `b` shows the first attempt with the most held locks. -/
structure Explained (attempts : List Attempt) (a b : GraphId × PathEntry) : Prop where
  attempted : ∃ A ∈ attempts, A.id = b.1 ∧ A.Holds a.1 a.2.waitForLock
  shown : ∃ B, Attempt.longest (Attempt.onLock attempts b.1) = some B ∧ Shows B b.2 ∧
    (some a.2.waitForLock ∈ b.2.holdingLocks ∨ ¬ B.Holds a.1 a.2.waitForLock ∨ 2 ^ 8 ≤ B.held.n)

namespace Rep
open Attempt

variable {g : Rep} {attempts : List Attempt} {a b : GraphId} {p q : Addr}

theorem Live.pathEntry_eq (hg : g.Indexed) (ha : g.Live a p) :
    pathEntry g a = some ⟨(g.node (nodeIndex a)).threadId,
      constructHoldLocksString (g.node (nodeIndex a)).holdLocks
        (g.node (nodeIndex a)).holdLocksCount, p⟩ := by
  simp [pathEntry, ha.ptr_eq hg, extraInfos, ha.findNode hg]

theorem Recorded.shows (B : Attempt) (h : (g.node (nodeIndex b)).snapshot = B.snapshot)
    (hg : g.Indexed) (hb : g.Live b q) {block : PathEntry} (hblock : pathEntry g b = some block) :
    Shows B block := by
  obtain rfl := Option.some.inj (hblock.symm.trans (hb.pathEntry_eq hg))
  have hthread : (g.node (nodeIndex b)).threadId = some B.thread := congrArg Node.threadId h
  have hlocks : (g.node (nodeIndex b)).holdLocks = B.held.locks := congrArg Node.holdLocks h
  have hcount : (g.node (nodeIndex b)).holdLocksCount = B.held.n % 2 ^ 8 :=
    congrArg Node.holdLocksCount h
  refine ⟨hthread, fun hn => ?_⟩
  simp only [hlocks, hcount, Nat.mod_eq_of_lt hn, constructHoldLocksString,
    SynchLocksHeld.entries]
  rw [min_comm, ← List.take_take, List.take_length]

theorem Accounted.explained (h : g.Accounted attempts) (hg : g.Indexed) (harc : g.Arc a b)
    {block block' : PathEntry} (hblock : pathEntry g a = some block)
    (hblock' : pathEntry g b = some block') : Explained attempts (a, block) (b, block') := by
  obtain ⟨⟨p, ha⟩, ⟨q, hb⟩, -⟩ := id harc
  obtain ⟨A, hA, hid, hholds⟩ := h.arc a b p ha harc
  have hp : block.waitForLock = p := by
    obtain rfl := Option.some.inj (hblock.symm.trans (ha.pathEntry_eq hg))
    rfl
  subst hp
  have hrecorded := h.recorded b q hb
  unfold Recorded at hrecorded
  cases hlongest : longest (onLock attempts b) with
  | none =>
    have hmem : A ∈ onLock attempts b := List.mem_filter.mpr ⟨hA, by simpa using hid⟩
    rw [List.argmax_eq_none.mp hlongest] at hmem
    cases hmem
  | some B =>
    rw [hlongest] at hrecorded
    have hshows := Recorded.shows B hrecorded hg hb hblock'
    refine ⟨⟨A, hA, hid, hholds⟩, B, hlongest, hshows, ?_⟩
    by_cases hB : B.held.n < 2 ^ 8 ∧ B.Holds a block.waitForLock
    · exact Or.inl (hshows.mem hB.1 hB.2)
    · rw [not_and_or, not_lt] at hB
      exact Or.inr hB.symm

end Rep

namespace Config
open CppGuard.Rep

/-- The report about a refused edge, with the attempts of the run and the one that is refused. -/
theorem deadlock_report_explained {maxLocks : Nat} {es : List Event} {c : Config}
    (hrun : exec (step maxLocks) {} es = some c) {t : ThreadId} {mu : Addr}
    {id other : GraphId} {g g' : Rep}
    (hid : c.monitor.deadlockGraph.getId maxLocks t mu = some (id, g))
    (hcheck : checkHeldLocks id (c.monitor.locksHeld maxLocks t).entries
      (g.updateStackTrace id t (c.monitor.locksHeld maxLocks t)) = some (some other, g')) :
    ∃ attempts, exec (Traced.step maxLocks) {} es = some ⟨c, attempts⟩ ∧
      ∃ len path, ∃ printed : List (GraphId × PathEntry),
        g'.findPath id other pathSize (List.replicate pathSize 0) = some (len, path) ∧
        printed.map Prod.fst = path.take (min len pathSize) ∧ 2 ≤ printed.length ∧
        (∀ e ∈ printed, pathEntry g' e.1 = some e.2) ∧
        buildDeadlockCircleLogText g' t mu id other =
          some (.deadlockCircle mu t (printed.map Prod.snd)) ∧
        printed.IsChain
          (Explained (attempts ++ [⟨id, t, c.monitor.locksHeld maxLocks t⟩])) := by
  obtain ⟨attempts, htraced⟩ := Traced.exists_exec_traced (s := {}) hrun
  obtain ⟨hinv, hacc⟩ := Traced.exec_accounted htraced
  have hacc' := hinv.accounted hacc hid hcheck
  have hentered := hinv.entered hid hcheck
  obtain ⟨hattempted, hpath⟩ := hentered.cycle other rfl
  obtain ⟨p, hother⟩ := hattempted.1
  have hclean := hentered.keeps.clean
  obtain ⟨len, path, ids, hfind, hfound⟩ := foundPath_of_path hclean hentered.self
    ((hentered.live other p).mpr (Or.inl hother)) hpath
  have hentry : ∀ a, (∃ p, g'.Live a p) → ∃ block, pathEntry g' a = some block :=
    fun a ⟨p, ha⟩ => ⟨_, ha.pathEntry_eq hclean.toIndexed⟩
  have : Nonempty PathEntry := ⟨⟨none, [], 0⟩⟩
  choose! block hblock using hentry
  have hblock' : ∀ a ∈ ids.take pathSize, pathEntry g' a = some (block a) :=
    fun a ha => hblock a (hfound.live a (List.mem_of_mem_take ha))
  refine ⟨attempts, htraced, len, path, (ids.take pathSize).map fun a => (a, block a), hfind,
    ?_, ?_, ?_, ?_, ?_⟩
  · simp [Function.comp_def, hfound.stored]
  · have hlen := hfound.two_le hattempted.mem.1
    simp [hfound.length, pathSize, hlen]
  · intro e he
    obtain ⟨a, ha, rfl⟩ := List.mem_map.mp he
    exact hblock' a ha
  · simp only [buildDeadlockCircleLogText, hfind, hfound.stored, List.map_map, Function.comp_def,
      Option.bind_eq_bind, Option.bind_some, Option.pure_def]
    rw [List.filterMap_congr hblock', List.filterMap_eq_map']
  · refine (List.isChain_map _).mpr ((hfound.chain.take pathSize).imp fun a b hab => ?_)
    exact hacc'.explained hclean.toIndexed hab (hblock a hab.1) (hblock b hab.2.1)

theorem deadlock_report_explained_sample : ∃ c g g', exec (step 20) {} inversion = some c ∧
    c.monitor.deadlockGraph.getId 20 2 16 = some (makeId 0 1, g) ∧
    ∃ attempts, exec (Traced.step 20) {} inversion = some ⟨c, attempts⟩ ∧
      ∃ len path, ∃ printed : List (GraphId × PathEntry),
        g'.findPath (makeId 0 1) (makeId 1 1) pathSize (List.replicate pathSize 0) =
          some (len, path) ∧
        printed.map Prod.fst = path.take (min len pathSize) ∧ 2 ≤ printed.length ∧
        (∀ e ∈ printed, pathEntry g' e.1 = some e.2) ∧
        buildDeadlockCircleLogText g' 2 16 (makeId 0 1) (makeId 1 1) =
          some (.deadlockCircle 16 2 (printed.map Prod.snd)) ∧
        printed.IsChain (Explained (attempts ++ [⟨makeId 0 1, 2, c.monitor.locksHeld 20 2⟩])) := by
  obtain ⟨c, g, g', hrun, hid, hcheck, -⟩ := exec_inversion
  exact ⟨c, g, g', hrun, hid, deadlock_report_explained hrun hid hcheck⟩

/-- Thread 1 takes 16 and 32, and later 48, 64 and 32. Then thread 2 takes 32 and 16. -/
def longerAttempt : List Event :=
  [⟨1, .beforeLock 16, 1⟩, ⟨1, .inLock 0, 1⟩, ⟨1, .beforeLock 32, 1⟩, ⟨1, .inLock 0, 1⟩,
   ⟨1, .afterLock 32, 1⟩, ⟨1, .afterLock 16, 1⟩,
   ⟨1, .beforeLock 48, 1⟩, ⟨1, .inLock 0, 1⟩, ⟨1, .beforeLock 64, 1⟩, ⟨1, .inLock 0, 1⟩,
   ⟨1, .beforeLock 32, 1⟩, ⟨1, .inLock 0, 1⟩,
   ⟨1, .afterLock 32, 1⟩, ⟨1, .afterLock 64, 1⟩, ⟨1, .afterLock 48, 1⟩,
   ⟨2, .beforeLock 32, 1⟩, ⟨2, .inLock 0, 1⟩, ⟨2, .beforeLock 16, 1⟩]

/-- The report prints 16 and then 32, with the locks 48 and 64 of the longer attempt. -/
theorem longerAttempt_not_explained : ∃ c, exec (step 20) {} longerAttempt = some c ∧
    ∃ path, (.deadlockCircle 16 2 path, true) ∈ c.monitor.processedErrors ∧
      ¬ path.IsChain fun a b => some a.waitForLock ∈ b.holdingLocks := by
  let path : List PathEntry := [⟨some 2, [some 32], 16⟩, ⟨some 1, [some 48, some 64], 32⟩]
  have hcomputed : ∃ c, exec (step 20) {} longerAttempt = some c ∧
      (.deadlockCircle 16 2 path, true) ∈ c.monitor.processedErrors :=
    exists_exec (by decide +kernel)
  obtain ⟨c, hrun, hreport⟩ := hcomputed
  exact ⟨c, hrun, path, hreport, by decide⟩

end Config
end CppGuard
