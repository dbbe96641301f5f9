import CppGuard.DeadlockMonitor.Effect
import CppGuard.GraphCycles.LockGraph
import CppGuard.Library.Transition
import Mathlib.Data.List.TakeWhile

/-!
# Reachable states of the monitor

In every reachable state the graph is well-formed, the histories are, and every id that a
history or a pending call keeps was returned by `GetId` for its lock (`Core.Inv`). On such
states the loop of `dlc_deadlock_check_before_lock` can be described by the arcs that it
adds (`checkHeldLocks_spec`).
-/
namespace CppGuard
open Relation ThreadHistory DeadlockMonitor

namespace Rep

/-- `GetId` has returned the id for `p`, which may have been removed since. -/
def Issued (g : Rep) (id : GraphId) (p : Addr) : Prop := g.Live id p ∨ g.Retired id

/-- What every operation on the graph preserves. -/
structure Keeps (g g' : Rep) : Prop where
  clean : g'.Clean
  issued : ∀ id p, g.Issued id p → g'.Issued id p

theorem Keeps.trans {g g' g'' : Rep} (h : Keeps g g') (h' : Keeps g' g'') : Keeps g g'' :=
  ⟨h'.clean, fun id p hid => h'.issued id p (h.issued id p hid)⟩

theorem SameIds.keeps {g g' : Rep} (h : SameIds g g') : Keeps g g' := by
  refine ⟨h.clean, fun id p hid => ?_⟩
  obtain hid | hid := hid
  · exact Or.inl ((h.live id p).mpr hid)
  · exact Or.inr ((h.retired id).mpr hid)

theorem GotId.keeps {g g' : Rep} {p : Addr} {id : GraphId} (h : GotId p id g g') : Keeps g g' := by
  refine ⟨h.clean, fun a q ha => ?_⟩
  obtain ha | ha := ha
  · exact Or.inl ((h.live a q).mpr (Or.inl ha))
  · exact Or.inr (h.retired a ha)

theorem RemovedAddr.keeps {g g' : Rep} {p : Addr} (h : RemovedAddr p g g') : Keeps g g' := by
  refine ⟨h.clean, fun a q ha => ?_⟩
  obtain ha | ha := ha
  · by_cases hq : q = p
    · exact Or.inr (h.retired_self a (hq ▸ ha))
    · exact Or.inl ((h.live a q).mpr ⟨ha, hq⟩)
  · exact Or.inr (h.retired a ha)

end Rep

namespace DeadlockMonitor
open CppGuard.Rep

/-- The loop over `locks` tries to insert an edge from `a` to `id`. -/
def Attempted (g : Rep) (id : GraphId) (locks : List LockT) (a : GraphId) : Prop :=
  (∃ p, g.Live a p) ∧ ∃ l ∈ locks.takeWhile (fun l => l.id ≠ id), l.id = a

theorem attempted_cons (g : Rep) (id : GraphId) (l : LockT) (locks : List LockT) (a : GraphId) :
    Attempted g id (l :: locks) a ↔
      l.id ≠ id ∧ ((∃ p, g.Live a p) ∧ l.id = a ∨ Attempted g id locks a) := by
  by_cases hid : l.id = id
  · simp [Attempted, hid]
  · simp [Attempted, hid, and_or_left]

theorem Attempted.mem {g : Rep} {id : GraphId} {locks : List LockT} {a : GraphId}
    (h : Attempted g id locks a) : a ≠ id ∧ ∃ l ∈ locks, l.id = a := by
  obtain ⟨-, l, hl, rfl⟩ := h
  refine ⟨by simpa using List.mem_takeWhile_imp hl, l, ?_, rfl⟩
  exact (List.takeWhile_prefix _).subset hl

theorem attempted_iff_of_forall_ne {g : Rep} {id : GraphId} {locks : List LockT}
    (h : ∀ l ∈ locks, l.id ≠ id) (a : GraphId) :
    Attempted g id locks a ↔ (∃ p, g.Live a p) ∧ ∃ l ∈ locks, l.id = a := by
  have htake : locks.takeWhile (fun l => l.id ≠ id) = locks := by
    apply List.takeWhile_eq_self_iff.mpr
    simpa using h
  rw [Attempted, htake]

theorem attempted_congr {g g' : Rep} {id : GraphId} {locks : List LockT}
    (h : ∀ a, a ≠ id → ((∃ p, g'.Live a p) ↔ ∃ p, g.Live a p)) (a : GraphId) :
    Attempted g' id locks a ↔ Attempted g id locks a := by
  constructor
  · exact fun ha => ⟨(h a ha.mem.1).mp ha.1, ha.2⟩
  · exact fun ha => ⟨(h a ha.mem.1).mpr ha.1, ha.2⟩

/-- What the loop does. An edge is refused because of a path the other way; without a
refusal there is an arc from every lock that was tried. -/
structure Checked (g : Rep) (id : GraphId) (locks : List LockT) (refused : Option GraphId)
    (g' : Rep) : Prop where
  sameIds : SameIds g g'
  sameIdent : SameIdent g g'
  arc_mono : ∀ x y, g.Arc x y → g'.Arc x y
  arc_new : ∀ x y, g'.Arc x y → g.Arc x y ∨ Attempted g id locks x ∧ y = id
  accepted : refused = none → ∀ a, Attempted g id locks a → g'.Arc a id
  cycle : ∀ other, refused = some other → Attempted g id locks other ∧
    ReflTransGen g'.Arc id other

section Loop

variable {g : Rep} (hg : g.Clean) {id : GraphId} {mu : Addr} (hid : g.Live id mu)
include hg hid

theorem checkHeldLocks_spec (locks : List LockT) (issued : ∀ l ∈ locks, ∃ p, g.Issued l.id p) :
    ∃ refused g', checkHeldLocks id locks g = some (refused, g') ∧
      Checked g id locks refused g' := by
  induction locks generalizing g with
  | nil =>
    refine ⟨none, g, rfl, ⟨.refl hg, .refl g, fun _ _ h => h, fun _ _ h => Or.inl h, ?_, by simp⟩⟩
    intro _ a ha
    obtain ⟨-, l, hl, -⟩ := ha.mem
    cases hl
  | cons l locks ih =>
    have issued' : ∀ l ∈ locks, ∃ p, g.Issued l.id p := fun x hx =>
      issued x (List.mem_cons_of_mem l hx)
    rw [checkHeldLocks]
    obtain ⟨p, hlive | hretired⟩ := issued l List.mem_cons_self
    · have hptr : g.ptr l.id ≠ none := by simp [hlive.ptr_eq hg.toIndexed]
      rw [if_neg hptr]
      by_cases hself : l.id = id
      · rw [if_pos hself]
        refine ⟨none, g, rfl,
          ⟨.refl hg, .refl g, fun _ _ h => h, fun _ _ h => Or.inl h, ?_, by simp⟩⟩
        intro _ a ha
        exact absurd hself ((attempted_cons ..).mp ha).1
      · rw [if_neg hself]
        have attempted : Attempted g id (l :: locks) l.id :=
          (attempted_cons ..).mpr ⟨hself, Or.inl ⟨⟨p, hlive⟩, rfl⟩⟩
        obtain ⟨ok, g₁, hins, hids, hident, htrue, hfalse⟩ := hg.insertEdge_arc hlive hid
        rw [hins]
        cases ok with
        | false =>
          obtain ⟨hpath, harc⟩ := hfalse rfl
          refine ⟨some l.id, g₁, rfl, ⟨hids, hident, fun x y h => (harc x y).mpr h,
            fun x y h => Or.inl ((harc x y).mp h), by simp, ?_⟩⟩
          intro other hother
          obtain rfl := Option.some.inj hother
          exact ⟨attempted, ReflTransGen.mono (fun x y h => (harc x y).mpr h) _ _ hpath⟩
        | true =>
          obtain ⟨-, harc⟩ := htrue rfl
          have hattempted : ∀ a, Attempted g₁ id locks a ↔ Attempted g id locks a :=
            attempted_congr fun a _ => exists_congr fun q => hids.live a q
          obtain ⟨refused, g', hcheck, hchecked⟩ := ih hids.clean ((hids.live id mu).mpr hid)
            fun x hx => (issued' x hx).imp fun q hq => hids.keeps.issued x.id q hq
          refine ⟨refused, g', hcheck, ⟨hids.trans hchecked.sameIds,
            hident.trans hchecked.sameIdent, ?_, ?_, ?_, ?_⟩⟩
          · exact fun x y h => hchecked.arc_mono x y ((harc x y).mpr (Or.inl h))
          · intro x y h
            obtain h | ⟨hx, rfl⟩ := hchecked.arc_new x y h
            · obtain h | ⟨rfl, rfl⟩ := (harc x y).mp h
              · exact Or.inl h
              · exact Or.inr ⟨attempted, rfl⟩
            · exact Or.inr ⟨(attempted_cons ..).mpr ⟨hself, Or.inr ((hattempted x).mp hx)⟩, rfl⟩
          · intro hnone a ha
            obtain ⟨-, ⟨-, rfl⟩ | ha⟩ := (attempted_cons ..).mp ha
            · exact hchecked.arc_mono _ _ ((harc l.id id).mpr (Or.inr ⟨rfl, rfl⟩))
            · exact hchecked.accepted hnone a ((hattempted a).mpr ha)
          · intro other hother
            obtain ⟨ha, hpath⟩ := hchecked.cycle other hother
            exact ⟨(attempted_cons ..).mpr ⟨hself, Or.inr ((hattempted other).mp ha)⟩, hpath⟩
    · rw [if_pos hretired.ptr_eq]
      have hself : l.id ≠ id := by
        rintro rfl
        exact hretired.not_live hg.toIndexed hid
      have hattempted : ∀ a, Attempted g id (l :: locks) a ↔ Attempted g id locks a := by
        intro a
        rw [attempted_cons]
        constructor
        · rintro ⟨-, ⟨⟨q, ha⟩, rfl⟩ | ha⟩
          · exact absurd ha (hretired.not_live hg.toIndexed)
          · exact ha
        · exact fun ha => ⟨hself, Or.inr ha⟩
      obtain ⟨refused, g', hcheck, h⟩ := ih hg hid issued'
      refine ⟨refused, g', hcheck, ⟨h.sameIds, h.sameIdent, h.arc_mono, ?_, ?_, ?_⟩⟩
      · simpa only [hattempted] using h.arc_new
      · simpa only [hattempted] using h.accepted
      · simpa only [hattempted] using h.cycle

/-- The loop leaves a graph alone that already has the arcs. -/
theorem checkHeldLocks_of_arcs (locks : List LockT) (issued : ∀ l ∈ locks, ∃ p, g.Issued l.id p)
    (arcs : ∀ a, Attempted g id locks a → g.Arc a id) :
    checkHeldLocks id locks g = some (none, g) := by
  induction locks with
  | nil => rfl
  | cons l locks ih =>
    have issued' : ∀ l ∈ locks, ∃ p, g.Issued l.id p := fun x hx =>
      issued x (List.mem_cons_of_mem l hx)
    rw [checkHeldLocks]
    obtain ⟨p, hlive | hretired⟩ := issued l List.mem_cons_self
    · have hptr : g.ptr l.id ≠ none := by simp [hlive.ptr_eq hg.toIndexed]
      rw [if_neg hptr]
      by_cases hself : l.id = id
      · rw [if_pos hself]
      · have harc := arcs l.id ((attempted_cons ..).mpr ⟨hself, Or.inl ⟨⟨p, hlive⟩, rfl⟩⟩)
        rw [if_neg hself, hg.insertEdge_of_arc harc]
        exact ih issued' fun a ha => arcs a ((attempted_cons ..).mpr ⟨hself, Or.inr ha⟩)
    · have hself : l.id ≠ id := by
        rintro rfl
        exact hretired.not_live hg.toIndexed hid
      rw [if_pos hretired.ptr_eq]
      exact ih issued' fun a ha => arcs a ((attempted_cons ..).mpr ⟨hself, Or.inr ha⟩)

end Loop
end DeadlockMonitor

/-! ## The invariant -/

namespace SynchLocksHeld

variable {maxLocks : Nat} {held : SynchLocksHeld}

theorem Valid.setStart (h : held.Valid maxLocks) (start : Nat) :
    ({ held with lockStartTimePoint := start } : SynchLocksHeld).Valid maxLocks := by
  refine ⟨?_, h.le, h.nodup, h.count_pos⟩
  exact congrArg (fun s : SynchLocksHeld => { s with lockStartTimePoint := start }) h.eq

theorem Valid.arm (h : held.Valid maxLocks) (now : Nat) :
    (CppGuard.arm now held).Valid maxLocks := by
  unfold CppGuard.arm
  split_ifs
  · exact h.setStart now
  · exact h

theorem Valid.disarm (h : held.Valid maxLocks) : (DeadlockMonitor.disarm held).Valid maxLocks := by
  unfold DeadlockMonitor.disarm
  split_ifs
  · exact h.setStart 0
  · exact h

end SynchLocksHeld

namespace Core
open CppGuard.Rep

structure Inv (maxLocks : Nat) (s : Core) : Prop where
  clean : s.graph.Clean
  valid : ∀ t, (s.held t).Valid maxLocks
  held : ∀ t, ∀ l ∈ (s.held t).entries, ∃ p, l.mu = some p ∧ s.graph.Issued l.id p
  calls : ∀ t, ∀ call ∈ s.calls t, call.2 ≠ invalidGraphId → s.graph.Issued call.2 call.1

variable {maxLocks : Nat} {s : Core} {t : ThreadId} {mu : Addr} {id : GraphId} {g g' : Rep}

theorem Inv.issued (hs : s.Inv maxLocks) (t : ThreadId) :
    ∀ l ∈ (s.held t).entries, ∃ p, s.graph.Issued l.id p :=
  fun l hl => (hs.held t l hl).imp fun _ h => h.2

theorem Inv.setGraph (hs : s.Inv maxLocks) (hg : Keeps s.graph g) :
    Inv maxLocks { s with graph := g } where
  clean := hg.clean
  valid := hs.valid
  held t l hl := (hs.held t l hl).imp fun p h => ⟨h.1, hg.issued l.id p h.2⟩
  calls t call hcall hne := hg.issued call.2 call.1 (hs.calls t call hcall hne)

theorem Inv.setHeld (hs : s.Inv maxLocks) (t : ThreadId) {held : SynchLocksHeld}
    (valid : held.Valid maxLocks)
    (issued : ∀ l ∈ held.entries, ∃ p, l.mu = some p ∧ s.graph.Issued l.id p) :
    Inv maxLocks { s with held := Function.update s.held t held } := by
  refine ⟨hs.clean, fun u => ?_, fun u => ?_, hs.calls⟩
  · by_cases hu : u = t
    · simpa [hu] using valid
    · simpa [hu] using hs.valid u
  · by_cases hu : u = t
    · simpa [hu] using issued
    · simpa [hu] using hs.held u

theorem Inv.called (hs : s.Inv maxLocks) (t : ThreadId) (mu : Addr) (id : GraphId)
    (hid : id ≠ invalidGraphId → s.graph.Issued id mu) : (s.called t mu id).Inv maxLocks := by
  refine ⟨hs.clean, hs.valid, hs.held, fun u call hcall hne => ?_⟩
  by_cases hu : u = t
  · subst hu
    obtain rfl | hcall : call = (mu, id) ∨ call ∈ s.calls u := by
      simpa [Core.called] using hcall
    · exact hid hne
    · exact hs.calls u call hcall hne
  · have hcall' : call ∈ s.calls u := by simpa [Core.called, hu] using hcall
    exact hs.calls u call hcall' hne

/-- What `dlc_deadlock_check_before_lock` does to the graph. -/
structure Entered (g : Rep) (mu : Addr) (id : GraphId) (locks : List LockT)
    (refused : Option GraphId) (g' : Rep) : Prop where
  keeps : Keeps g g'
  self : g'.Live id mu
  live : ∀ a p, g'.Live a p ↔ g.Live a p ∨ a = id ∧ p = mu
  retired : ∀ a, g.Retired a → g'.Retired a
  arc_mono : ∀ x y, g.Arc x y → g'.Arc x y
  arc_new : ∀ x y, g'.Arc x y → g.Arc x y ∨ Attempted g id locks x ∧ y = id
  accepted : refused = none → ∀ a, Attempted g id locks a → g'.Arc a id
  cycle : ∀ other, refused = some other → Attempted g id locks other ∧
    ReflTransGen g'.Arc id other

theorem Inv.checked (hs : s.Inv maxLocks) {refused : Option GraphId}
    (hid : s.graph.getId maxLocks t mu = some (id, g))
    (hcheck : checkHeldLocks id (s.held t).entries (g.updateStackTrace id t (s.held t)) =
      some (refused, g')) :
    Checked (g.updateStackTrace id t (s.held t)) id (s.held t).entries refused g' := by
  have hgot := hs.clean.getId_arc hid
  obtain ⟨hids, -, -, -⟩ := hgot.clean.updateStackTrace_arc id t (s.held t)
  obtain ⟨refused', g'', hcheck', hchecked⟩ := checkHeldLocks_spec hids.clean
    ((hids.live id mu).mpr hgot.self) (s.held t).entries
    fun l hl => (hs.issued t l hl).imp fun p hp =>
      hids.keeps.issued l.id p (hgot.keeps.issued l.id p hp)
  cases hcheck'.symm.trans hcheck
  exact hchecked

theorem Inv.entered (hs : s.Inv maxLocks) {refused : Option GraphId}
    (hid : s.graph.getId maxLocks t mu = some (id, g))
    (hcheck : checkHeldLocks id (s.held t).entries (g.updateStackTrace id t (s.held t)) =
      some (refused, g')) : Entered s.graph mu id (s.held t).entries refused g' := by
  have hgot := hs.clean.getId_arc hid
  have hchecked := hs.checked hid hcheck
  obtain ⟨hids, -, -, harc⟩ := hgot.clean.updateStackTrace_arc id t (s.held t)
  have hattempted : ∀ a, Attempted (g.updateStackTrace id t (s.held t)) id (s.held t).entries a ↔
      Attempted s.graph id (s.held t).entries a := by
    refine attempted_congr fun a ha => exists_congr fun p => ?_
    rw [hids.live, hgot.live]
    simp [ha]
  have hsame := hids.trans hchecked.sameIds
  refine ⟨hgot.keeps.trans hsame.keeps, (hsame.live id mu).mpr hgot.self, fun a p => ?_,
    fun a ha => (hsame.retired a).mpr (hgot.retired a ha), fun x y h => ?_, fun x y h => ?_, ?_, ?_⟩
  · rw [hsame.live, hgot.live]
  · exact hchecked.arc_mono x y ((harc x y).mpr ((hgot.arc x y).mpr h))
  · obtain h | ⟨hx, hy⟩ := hchecked.arc_new x y h
    · exact Or.inl ((hgot.arc x y).mp ((harc x y).mp h))
    · exact Or.inr ⟨(hattempted x).mp hx, hy⟩
  · simpa only [hattempted] using hchecked.accepted
  · simpa only [hattempted] using hchecked.cycle

theorem inv_initial (maxLocks : Nat) : (Config.core maxLocks {}).Inv maxLocks :=
  ⟨clean_empty, fun t => SynchLocksHeld.valid_new maxLocks t,
    fun t l hl => by
      simp [Config.core, locksHeld, SynchLocksHeld.new, SynchLocksHeld.entries] at hl,
    fun t call hcall => by cases hcall⟩

theorem Effect.inv {now : Nat} {hook : Hook} {s' : Core} (h : Effect maxLocks s t now hook s')
    (hs : s.Inv maxLocks) : s'.Inv maxLocks := by
  have armed : ∀ {g}, Keeps s.graph g → ∀ l ∈ (arm now (s.held t)).entries,
      ∃ p, l.mu = some p ∧ g.Issued l.id p := by
    intro g hg l hl
    rw [entries_arm] at hl
    exact (hs.setGraph hg).held t l hl
  have entered : ∀ {mu id g g' refused} (held : SynchLocksHeld), held.Valid maxLocks →
      (∀ l ∈ held.entries, l ∈ (s.held t).entries) →
      s.graph.getId maxLocks t mu = some (id, g) →
      checkHeldLocks id (s.held t).entries (g.updateStackTrace id t (s.held t)) =
        some (refused, g') →
      Inv maxLocks { s.called t mu id with
        graph := g', held := Function.update s.held t held } := by
    intro mu id g g' refused held hvalid hsub hid hcheck
    have hentered := hs.entered hid hcheck
    exact ((hs.setGraph hentered.keeps).setHeld t hvalid
      fun l hl => (hs.setGraph hentered.keeps).held t l (hsub l hl)).called
        t mu id fun _ => Or.inl hentered.self
  cases h with
  | @lockIgnored mu =>
    have := hs.called t mu invalidGraphId fun h => absurd rfl h
    exact ⟨this.clean, this.valid, this.held, this.calls⟩
  | @lockFull mu =>
    have := hs.called t mu invalidGraphId fun h => absurd rfl h
    exact ⟨this.clean, this.valid, this.held, this.calls⟩
  | lock _ _ hid hcheck =>
    exact entered (arm now (s.held t)) ((hs.valid t).arm now) (by simp) hid hcheck
  | lockRefused _ _ hid hcheck =>
    have := entered (s.held t) (hs.valid t) (by simp) hid hcheck
    rw [Function.update_eq_self] at this
    exact ⟨this.clean, this.valid, this.held, this.calls⟩
  | @tryLock mu id g hid =>
    have hgot := hs.clean.getId_arc hid
    have := ((hs.setGraph hgot.keeps).setHeld t ((hs.valid t).arm now) (armed hgot.keeps)).called
      t mu id fun _ => Or.inl hgot.self
    exact ⟨this.clean, this.valid, this.held, this.calls⟩
  | @inLock call mu id hcall hne =>
    refine hs.setHeld t (valid_inLock (hs.valid t) mu id) fun l hl => ?_
    obtain ⟨hmu, hid⟩ | ⟨l₀, hl₀, hid, hmu⟩ := mem_inLock (hs.valid t) hl
    · exact ⟨mu, hmu, hid ▸ hs.calls t (mu, id) (List.mem_of_getElem? hcall) hne⟩
    · rw [← hid, ← hmu]
      exact hs.held t l₀ hl₀
  | unlockIgnored => exact ⟨hs.clean, hs.valid, hs.held, hs.calls⟩
  | unlock _ hid hafter =>
    have hgot := hs.clean.getId_arc hid
    refine (hs.setGraph hgot.keeps).setHeld t (valid_afterLock (hs.valid t) hafter).disarm
      fun l hl => ?_
    rw [entries_disarm] at hl
    obtain ⟨l₀, hl₀, hid, hmu⟩ := mem_afterLock (hs.valid t) hafter hl
    rw [← hid, ← hmu]
    exact (hs.setGraph hgot.keeps).held t l₀ hl₀
  | unlockError _ hid =>
    have hgot := hs.clean.getId_arc hid
    have := (hs.setGraph hgot.keeps).setHeld t (hs.valid t).disarm fun l hl => by
      rw [entries_disarm] at hl
      exact (hs.setGraph hgot.keeps).held t l hl
    exact ⟨this.clean, this.valid, this.held, this.calls⟩
  | delete hg => exact hs.setGraph (hs.clean.removed hg).keeps
  | deleteHeld hg =>
    have := hs.setGraph (hs.clean.removed hg).keeps
    exact ⟨this.clean, this.valid, this.held, this.calls⟩
  | cndWait => exact hs.setHeld t ((hs.valid t).setStart _) (hs.held t)
  | increaseIgnoreCounter => exact ⟨hs.clean, hs.valid, hs.held, hs.calls⟩
  | setOptions => exact ⟨hs.clean, hs.valid, hs.held, hs.calls⟩
  | threadDelete =>
    have := hs.setHeld t (SynchLocksHeld.valid_new maxLocks t) fun l hl => by
      simp [SynchLocksHeld.new, SynchLocksHeld.entries] at hl
    refine ⟨this.clean, this.valid, this.held, fun u call hcall => ?_⟩
    by_cases hu : u = t
    · simp [hu] at hcall
    · exact hs.calls u call (by simpa [hu] using hcall)

/-- A call of `dlc_deadlock_check_before_lock` that is not ignored, by a thread with room. -/
structure Locked (s : Core) (t : ThreadId) (mu : Addr) (id : GraphId) (refused : Option GraphId)
    (s' : Core) : Prop where
  entered : Entered s.graph mu id (s.held t).entries refused s'.graph
  calls : s'.calls = (s.called t mu id).calls
  entries : ∀ u, (s'.held u).entries = (s.held u).entries
  ignoreLock : s'.ignoreLock = s.ignoreLock
  ignoreUnlock : s'.ignoreUnlock = s.ignoreUnlock
  outcome : (refused = none ∧ s'.potentialDeadlocksFound = s.potentialDeadlocksFound ∧
      s'.errors = s.errors) ∨
    (∃ other, refused = some other) ∧ s'.potentialDeadlocksFound = true ∧
      ∃ report, s'.errors = s.errors ++ [(report, true)]

theorem Effect.locked {now : Nat} {s' : Core} (h : Effect maxLocks s t now (.beforeLock mu) s')
    (hs : s.Inv maxLocks) (hignore : s.ignoreLock t = 0) (hroom : (s.held t).n < maxLocks) :
    ∃ id refused, Locked s t mu id refused s' := by
  cases h with
  | lockIgnored hpos => exact absurd hignore (Nat.pos_iff_ne_zero.mp hpos)
  | lockFull _ hfull => exact absurd hroom (Nat.not_lt.mpr hfull)
  | @lock _ id g g' _ _ hid hcheck =>
    refine ⟨id, none, hs.entered hid hcheck, rfl, fun u => ?_, rfl, rfl, Or.inl ⟨rfl, rfl, rfl⟩⟩
    grind [Function.update_apply, entries_arm]
  | @lockRefused _ id g g' other report _ _ hid hcheck =>
    exact ⟨id, some other, hs.entered hid hcheck, rfl, fun _ => rfl, rfl, rfl,
      Or.inr ⟨⟨other, rfl⟩, rfl, report, rfl⟩⟩

/-! ## What a hook leaves alone -/

/-- A live id stays live until its lock is deleted, and is retired from then on; an arc
stays until one of its locks is deleted. -/
structure Evolves (hook : Hook) (g g' : Rep) : Prop where
  retired : ∀ x, g.Retired x → g'.Retired x
  live : ∀ x p, g.Live x p → hook ≠ .deleteLock p → g'.Live x p
  removed : ∀ x p, g.Live x p → hook = .deleteLock p → g'.Retired x
  arc : ∀ x y p q, g.Live x p → g.Live y q → g.Arc x y → hook ≠ .deleteLock p →
    hook ≠ .deleteLock q → g'.Arc x y

theorem Evolves.of_forall {hook : Hook} (hhook : ∀ p, hook ≠ .deleteLock p)
    (retired : ∀ x, g.Retired x → g'.Retired x) (live : ∀ x p, g.Live x p → g'.Live x p)
    (arc : ∀ x y, g.Arc x y → g'.Arc x y) : Evolves hook g g' :=
  ⟨retired, fun x p hx _ => live x p hx, fun _ p _ h => absurd h (hhook p),
    fun x y _ _ _ _ h _ _ => arc x y h⟩

theorem Evolves.of_removed (hg : g.Clean) (h : RemovedAddr mu g g') :
    Evolves (.deleteLock mu) g g' := by
  have other : ∀ x p, g.Live x p → Hook.deleteLock mu ≠ .deleteLock p → ¬ g.Live x mu := by
    rintro x p hx hne hmu
    exact hne (by rw [hx.addr_inj hg.toIndexed hmu])
  refine ⟨h.retired, fun x p hx hne => (h.live x p).mpr ⟨hx, ?_⟩, fun x p hx heq => ?_, ?_⟩
  · rintro rfl
    exact hne rfl
  · obtain rfl := Hook.deleteLock.inj heq
    exact h.retired_self x hx
  · intro x y p q hx hy harc hp hq
    exact (h.arc x y).mpr ⟨harc, other x p hx hp, other y q hy hq⟩

theorem Effect.evolves {now : Nat} {hook : Hook} {s' : Core} (h : Effect maxLocks s t now hook s')
    (hs : s.Inv maxLocks) : Evolves hook s.graph s'.graph := by
  have same : ∀ {hook}, (∀ p, hook ≠ .deleteLock p) → Evolves hook s.graph s.graph :=
    fun hhook => .of_forall hhook (fun _ => id) (fun _ _ => id) fun _ _ => id
  have got : ∀ {hook mu id g}, (∀ p, hook ≠ .deleteLock p) →
      s.graph.getId maxLocks t mu = some (id, g) → Evolves hook s.graph g := by
    intro hook mu id g hhook hid
    have hgot := hs.clean.getId_arc hid
    exact .of_forall hhook hgot.retired (fun x p hx => (hgot.live x p).mpr (Or.inl hx))
      fun x y => (hgot.arc x y).mpr
  have entered : ∀ {hook mu id refused g'}, (∀ p, hook ≠ .deleteLock p) →
      Entered s.graph mu id (s.held t).entries refused g' → Evolves hook s.graph g' :=
    fun hhook he => .of_forall hhook he.retired (fun x p hx => (he.live x p).mpr (Or.inl hx))
      he.arc_mono
  have removed : ∀ {mu g}, s.graph.removeNode mu = some g →
      Evolves (.deleteLock mu) s.graph g := fun hg => .of_removed hs.clean (hs.clean.removed hg)
  cases h with
  | lock _ _ hid hcheck => exact entered (by simp) (hs.entered hid hcheck)
  | lockRefused _ _ hid hcheck => exact entered (by simp) (hs.entered hid hcheck)
  | tryLock hid => exact got (by simp) hid
  | unlock _ hid => exact got (by simp) hid
  | unlockError _ hid => exact got (by simp) hid
  | delete hg => exact removed hg
  | deleteHeld hg => exact removed hg
  | _ => exact same (by simp)

/-- Threads do not write to the variables of each other. -/
theorem Effect.frame {now : Nat} {hook : Hook} {s' : Core} (h : Effect maxLocks s t now hook s')
    {u : ThreadId} (hu : u ≠ t) : s'.held u = s.held u ∧ s'.calls u = s.calls u ∧
      s'.ignoreLock u = s.ignoreLock u ∧ s'.ignoreUnlock u = s.ignoreUnlock u := by
  cases h <;> simp [Core.called, hu]

/-- What was found stays found. -/
theorem Effect.flag_mono {now : Nat} {hook : Hook} {s' : Core} (h : Effect maxLocks s t now hook s')
    (hflag : s.potentialDeadlocksFound = true) : s'.potentialDeadlocksFound = true := by
  cases h with
  | lockRefused => rfl
  | _ => exact hflag

end Core

namespace Config

theorem exec_inv {maxLocks : Nat} {es : List Event} {c : Config}
    (h : Transition.exec (step maxLocks) {} es = some c) : (c.core maxLocks).Inv maxLocks := by
  have hstep : ∀ c e c', (core maxLocks c).Inv maxLocks → step maxLocks c e = some c' →
      (core maxLocks c').Inv maxLocks := fun c e c' hc h => (step_effect h).inv hc
  exact Transition.exec_invariant hstep (Core.inv_initial maxLocks) h

end Config
end CppGuard
