import CppGuard.CriticalSection.Tracking
import CppGuard.DeadlockMonitor.Names

/-!
# Detection does not depend on timing

What is recorded for a thread, and which pairs of locks it tries to order, depends only on
its own calls (`Trail`). A deadlock is found if and only if the pairs of all threads have a
cycle, in whatever order they are tried: an edge is refused only if it closes a cycle, and
the cycle stays, whatever pairs the refusal skips.
-/
namespace CppGuard
open CountedList Relation Transition ThreadHistory DeadlockMonitor

/-- What the calls of one thread lead to. -/
structure Trail where
  held : List (Addr × Nat) := []
  /-- The pairs of locks that the thread has tried to order. -/
  pairs : List (Addr × Addr) := []

/-- The loop of `dlc_deadlock_check_before_lock` stops at the lock itself. -/
def tried (mu : Addr) (es : List (Addr × Nat)) : List (Addr × Addr) :=
  (es.takeWhile fun e => e.1 ≠ mu).map fun e => (e.1, mu)

def Trail.call (maxLocks : Nat) (s : Trail) : Action → Trail
  | .enter mu =>
    if maxLocks ≤ s.held.length then s
    else { held := acquire maxLocks mu s.held, pairs := s.pairs ++ tried mu s.held }
  | .leave mu => { s with held := release mu s.held }
  | _ => s

/-- Some thread has tried to order the locks. -/
def Tries (trails : ThreadId → Trail) (h m : Addr) : Prop := ∃ t, (h, m) ∈ (trails t).pairs

/-! ## One call of `dlc_deadlock_check_before_lock` -/

theorem forall₂_takeWhile {α β : Type*} {R : α → β → Prop} {l : List α} {m : List β}
    (h : List.Forall₂ R l m) {p : α → Bool} {q : β → Bool} (hpq : ∀ a b, R a b → p a = q b) :
    List.Forall₂ R (l.takeWhile p) (m.takeWhile q) := by
  induction h with
  | nil => exact .nil
  | @cons a b l m hab _ ih =>
    rw [List.takeWhile_cons, List.takeWhile_cons, hpq a b hab]
    split_ifs
    · exact .cons hab ih
    · exact .nil

namespace Core
open CppGuard.Rep

variable {maxLocks : Nat} {s : Core} {t : ThreadId} {mu : Addr} {id : GraphId} {g' : Rep}
  {es : List (Addr × Nat)} {refused : Option GraphId}

theorem mem_tried {h m : Addr} : (h, m) ∈ tried mu es ↔
    m = mu ∧ ∃ e ∈ es.takeWhile (fun e => e.1 ≠ mu), e.1 = h := by
  simp only [tried, List.mem_map, Prod.mk.injEq]
  grind

section Entered

variable (hs : s.Inv maxLocks) (hholds : s.Holds t es)
  (hentered : Entered s.graph mu id (s.held t).entries refused g')
include hs hholds hentered

/-- The edges that the loop tries are those of the pairs. -/
theorem attempted_iff (x : GraphId) : Attempted s.graph id (s.held t).entries x ↔
    ∃ h, s.graph.Live x h ∧ (h, mu) ∈ tried mu es := by
  have hclean := hentered.keeps.clean
  have hsame : ∀ (l : LockT) (e : Addr × Nat),
      l.mu = some e.1 ∧ l.count = e.2 ∧ s.graph.Live l.id e.1 →
        decide (l.id ≠ id) = decide (e.1 ≠ mu) := by
    rintro l e ⟨-, -, hlive⟩
    have hlive' := (hentered.live l.id e.1).mpr (Or.inl hlive)
    apply decide_eq_decide.mpr
    refine not_congr ⟨?_, ?_⟩
    · rintro rfl
      exact hlive'.addr_inj hclean.toIndexed hentered.self
    · rintro rfl
      exact hlive'.id_inj hclean.toIndexed hentered.self
  have htake := forall₂_takeWhile hholds hsame
  constructor
  · rintro ⟨-, l, hl, rfl⟩
    obtain ⟨e, he, -, -, hlive⟩ := forall₂_mem_left htake hl
    exact ⟨e.1, hlive, mem_tried.mpr ⟨rfl, e, he, rfl⟩⟩
  · rintro ⟨h, hlive, htried⟩
    obtain ⟨-, e, he, rfl⟩ := mem_tried.mp htried
    obtain ⟨l, hl, -, -, hlive'⟩ := forall₂_mem_right htake he
    exact ⟨⟨_, hlive⟩, l, hl, hlive'.id_inj hs.clean.toIndexed hlive⟩

/-- Every new arc is a pair that was tried. -/
theorem recorded_or_tried {h m : Addr} (hrec : Recorded g' g'.Live h m) :
    Recorded s.graph s.graph.Live h m ∨ (h, m) ∈ tried mu es := by
  have hclean := hentered.keeps.clean
  have hmono : ∀ x p, s.graph.Live x p → g'.Live x p := fun x p hx =>
    (hentered.live x p).mpr (Or.inl hx)
  obtain ⟨x, y, hx, hy, harc⟩ := hrec
  obtain harc | ⟨hattempted, rfl⟩ := hentered.arc_new x y harc
  · refine Or.inl ((recorded_iff (fun x p hx => ⟨p, hx⟩) hclean.live_rightUnique hmono).mp ?_)
    exact ⟨x, y, hx, hy, harc⟩
  · obtain ⟨q, hlive, htried⟩ := (attempted_iff hs hholds hentered x).mp hattempted
    obtain rfl := (hmono x q hlive).addr_inj hclean.toIndexed hx
    obtain rfl := hentered.self.addr_inj hclean.toIndexed hy
    exact Or.inr htried

theorem recorded_iff_tried (hrefused : refused = none) (h m : Addr) :
    Recorded g' g'.Live h m ↔ Recorded s.graph s.graph.Live h m ∨ (h, m) ∈ tried mu es := by
  refine ⟨recorded_or_tried hs hholds hentered, ?_⟩
  rintro (⟨x, y, hx, hy, harc⟩ | htried)
  · exact ⟨x, y, (hentered.live x h).mpr (Or.inl hx), (hentered.live y m).mpr (Or.inl hy),
      hentered.arc_mono x y harc⟩
  · obtain ⟨rfl, e, he, rfl⟩ := mem_tried.mp htried
    obtain ⟨l, -, -, -, hlive⟩ := forall₂_mem_right hholds ((List.takeWhile_prefix _).subset he)
    exact ⟨l.id, id, (hentered.live l.id e.1).mpr (Or.inl hlive), hentered.self,
      hentered.accepted hrefused l.id
        ((attempted_iff hs hholds hentered l.id).mpr ⟨e.1, hlive, htried⟩)⟩

/-- A refusal shows a cycle of recorded and tried pairs. -/
theorem cycle_of_refused {other : GraphId} (hrefused : refused = some other) :
    TransGen (fun h m => Recorded s.graph s.graph.Live h m ∨ (h, m) ∈ tried mu es) mu mu := by
  obtain ⟨hattempted, hpath⟩ := hentered.cycle other hrefused
  obtain ⟨h, hlive, htried⟩ := (attempted_iff hs hholds hentered other).mp hattempted
  have total : ∀ x p, g'.Live x p → ∃ k, g'.Live x k := fun _ p hx => ⟨p, hx⟩
  obtain ⟨h', hlive', hrecorded⟩ := recorded_path total hentered.self hpath
  obtain rfl := hlive'.addr_inj hentered.keeps.clean.toIndexed
    ((hentered.live other h).mpr (Or.inl hlive))
  refine TransGen.tail' (ReflTransGen.mono ?_ _ _ hrecorded) (Or.inr htried)
  exact fun h m hrec => recorded_or_tried hs hholds hentered hrec

end Entered
end Core

namespace World
open CppGuard.Rep

/-- What will be recorded when the thread has left the wrapper that it is in. -/
def ahead (maxLocks : Nat) : Position → List (Addr × Nat) → List (Addr × Nat)
  | .entering mu id, es => if id = invalidGraphId then es else acquire maxLocks mu es
  | .entered mu _, es => acquire maxLocks mu es
  | .idle, es | .trying _ _, es | .leaving _, es => es

theorem ahead_acquired (maxLocks : Nat) (mu : Addr) (id : GraphId) (es : List (Addr × Nat)) :
    ahead maxLocks (acquired mu id) es = ahead maxLocks (.entering mu id) es := by
  unfold acquired
  split_ifs with hid <;> simp [ahead, hid]

/-- A step of a thread, seen in the trails. -/
def trail (maxLocks : Nat) (trails : ThreadId → Trail) (a : Act) : ThreadId → Trail :=
  Function.update trails a.thread ((trails a.thread).call maxLocks a.action)

/-- The monitor is determined by the trails. -/
structure Determined (maxLocks : Nat) (w : World) (trails : ThreadId → Trail) : Prop where
  tracked : ∃ held, Tracking maxLocks w held ∧
    ∀ t, (trails t).held = ahead maxLocks (w.position t) (held t)
  blocking : ∀ t mu id, w.position t ≠ .trying mu id
  tries : w.config.monitor.potentialDeadlocksFound = false → ∀ h m, Tries trails h m ↔
    Recorded w.config.monitor.deadlockGraph w.config.monitor.deadlockGraph.Live h m
  cyclic : w.config.monitor.potentialDeadlocksFound = true → ∃ h, TransGen (Tries trails) h h

namespace Determined

variable {maxLocks now : Nat} {w w' : World} {trails : ThreadId → Trail} {t : ThreadId}
  {action : Action} {c : Config} {mu : Addr} {p : Position} {s : Trail}
  {held held' : ThreadId → List (Addr × Nat)}

theorem start (maxLocks : Nat) (options : RuntimeOptions) :
    Determined maxLocks (World.start options) fun _ => {} := by
  refine ⟨⟨_, .start maxLocks options, fun _ => rfl⟩, nofun, fun _ h m => ?_, nofun⟩
  constructor
  · rintro ⟨t, hmem⟩
    exact (List.not_mem_nil hmem).elim
  · rintro ⟨x, y, hx, -⟩
    exact absurd hx (not_live_empty x h)

/-- One thread moves. -/
theorem ahead_update (h : ∀ u, (trails u).held = ahead maxLocks (w.position u) (held u))
    (hheld : ∀ u, u ≠ t → held' u = held u) (own : s.held = ahead maxLocks p (held' t))
    (u : ThreadId) : (Function.update trails t s u).held =
      ahead maxLocks (Function.update w.position t p u) (held' u) := by
  grind [Function.update_apply]

theorem blocking_update (h : ∀ u mu id, w.position u ≠ .trying mu id)
    (hp : ∀ mu id, p ≠ .trying mu id) (u : ThreadId) (mu : Addr) (id : GraphId) :
    Function.update w.position t p u ≠ .trying mu id := by
  grind [Function.update_apply]

theorem tries_update {h m : Addr} (ps : List (Addr × Addr))
    (hs : s.pairs = (trails t).pairs ++ ps) :
    Tries (Function.update trails t s) h m ↔ Tries trails h m ∨ (h, m) ∈ ps := by
  have hself : (h, m) ∈ (Function.update trails t s t).pairs ↔
      (h, m) ∈ (trails t).pairs ∨ (h, m) ∈ ps := by
    rw [Function.update_self, hs, List.mem_append]
  constructor
  · rintro ⟨u, hu⟩
    grind [Tries, Function.update_apply]
  · rintro (⟨u, hu⟩ | hps)
    · exact ⟨u, by grind [Function.update_apply]⟩
    · exact ⟨t, hself.mpr (Or.inr hps)⟩

/-- A step that tries nothing. -/
theorem same (h : Determined maxLocks w trails) (htracking : Tracking maxLocks w' held')
    (hahead : ∀ u, (Function.update trails t s u).held =
      ahead maxLocks (w'.position u) (held' u))
    (hblocking : ∀ u mu id, w'.position u ≠ .trying mu id) (hpairs : s.pairs = (trails t).pairs)
    (hflag : w'.config.monitor.potentialDeadlocksFound = w.config.monitor.potentialDeadlocksFound)
    (hrecorded : ∀ h m,
      Recorded w'.config.monitor.deadlockGraph w'.config.monitor.deadlockGraph.Live h m ↔
        Recorded w.config.monitor.deadlockGraph w.config.monitor.deadlockGraph.Live h m) :
    Determined maxLocks w' (Function.update trails t s) := by
  have htries : ∀ h m, Tries (Function.update trails t s) h m ↔ Tries trails h m := by
    intro h m
    rw [tries_update [] (by rw [hpairs, List.append_nil])]
    simp
  refine ⟨⟨held', htracking, hahead⟩, hblocking, fun hfound h' m => ?_, fun hfound => ?_⟩
  · rw [htries, hrecorded]
    exact h.tries (hflag ▸ hfound) h' m
  · obtain ⟨q, hcycle⟩ := h.cyclic (hflag ▸ hfound)
    exact ⟨q, TransGen.mono (fun h m => (htries h m).mpr) _ _ hcycle⟩

/-- The thread has no room: nothing is tried, and the lock will not be recorded. -/
theorem enter_full (h : Determined maxLocks w trails) (hidle : w.position t = .idle)
    (hfull : maxLocks ≤ ((w.core maxLocks).held t).n)
    (hstep : w.config.step maxLocks ⟨t, .beforeLock mu, now⟩ = some c) :
    Determined maxLocks (w.hooked t (.entering mu (c.lastId t)) c)
      (trail maxLocks trails ⟨t, .enter mu, now⟩) := by
  obtain ⟨held, htracking, hahead⟩ := h.tracked
  have hheld : (trails t).held = held t := by rw [hahead, hidle, ahead]
  have hlength := htracking.length_eq t
  have hcall : (trails t).call maxLocks (.enter mu) = trails t := by
    rw [Trail.call, hheld, if_pos (by omega)]
  obtain ⟨report, hcore⟩ := (Config.step_effect hstep).full (htracking.ignoreLock t) hfull
  have hcalls : (c.core maxLocks).calls =
      ((w.core maxLocks).called t mu invalidGraphId).calls := by rw [hcore]
  have hgraph : c.monitor.deadlockGraph = w.config.monitor.deadlockGraph :=
    congrArg Core.graph hcore
  unfold trail
  rw [hcall]
  refine h.same (htracking.enter hstep) (ahead_update hahead (fun _ _ => rfl) ?_)
    (blocking_update h.blocking nofun) rfl (congrArg Core.potentialDeadlocksFound hcore)
    fun q m => ?_
  · rw [Config.lastId_of_called hcalls, ahead, if_pos rfl, hheld]
  · simp only [hooked, hgraph]

/-- The thread tries to order the lock behind those that it holds. -/
theorem enter_room (h : Determined maxLocks w trails) (hidle : w.position t = .idle)
    (hroom : ((w.core maxLocks).held t).n < maxLocks)
    (hstep : w.config.step maxLocks ⟨t, .beforeLock mu, now⟩ = some c) :
    Determined maxLocks (w.hooked t (.entering mu (c.lastId t)) c)
      (trail maxLocks trails ⟨t, .enter mu, now⟩) := by
  obtain ⟨held, htracking, hahead⟩ := h.tracked
  have hheld : (trails t).held = held t := by rw [hahead, hidle, ahead]
  have hlength := htracking.length_eq t
  have hcall : (trails t).call maxLocks (.enter mu) =
      ⟨acquire maxLocks mu (held t), (trails t).pairs ++ tried mu (held t)⟩ := by
    rw [Trail.call, hheld, if_neg (by omega)]
  obtain ⟨id, refused, hlocked⟩ :=
    (Config.step_effect hstep).locked htracking.inv (htracking.ignoreLock t) hroom
  have hentered := hlocked.entered
  have hid := hentered.self.ne_invalid hentered.keeps.clean.toIndexed
  have htries : ∀ h m, Tries (trail maxLocks trails ⟨t, .enter mu, now⟩) h m ↔
      Tries trails h m ∨ (h, m) ∈ tried mu (held t) :=
    fun h m => tries_update _ (by rw [hcall])
  refine ⟨⟨held, htracking.enter hstep, ahead_update hahead (fun _ _ => rfl) ?_⟩,
    blocking_update h.blocking nofun, fun hfound q m => ?_, fun hfound => ?_⟩
  · rw [hcall, Config.lastId_of_called hlocked.calls, ahead, if_neg hid]
  · obtain ⟨hrefused, hsame, -⟩ | ⟨-, hreported, -⟩ := hlocked.outcome
    · rw [htries, h.tries (hsame.symm.trans hfound)]
      exact (Core.recorded_iff_tried htracking.inv (htracking.holds t) hentered hrefused q m).symm
    · exact absurd (hreported.symm.trans hfound) (by decide)
  · cases hbefore : w.config.monitor.potentialDeadlocksFound with
    | true =>
      obtain ⟨q, hcycle⟩ := h.cyclic hbefore
      exact ⟨q, TransGen.mono (fun h m htry => (htries h m).mpr (Or.inl htry)) _ _ hcycle⟩
    | false =>
      obtain ⟨-, hsame, -⟩ | ⟨⟨other, hrefused⟩, -⟩ := hlocked.outcome
      · exact absurd ((hsame.symm.trans hfound).symm.trans hbefore) (by decide)
      · refine ⟨mu, TransGen.mono (fun h' m hrec => (htries h' m).mpr ?_) _ _
          (Core.cycle_of_refused htracking.inv (htracking.holds t) hentered hrefused)⟩
        exact hrec.imp_left (h.tries hbefore h' m).mpr

/-- Every step of a thread that calls no function but those that block. -/
theorem step (h : Determined maxLocks w trails) (hmove : Moves maxLocks w t now action w')
    (htry : ∀ mu, action ≠ .tryEnter mu) (hdelete : ∀ mu, action ≠ .delete mu) :
    Determined maxLocks w' (trail maxLocks trails ⟨t, action, now⟩) := by
  obtain ⟨held, htracking, hahead⟩ := h.tracked
  have htracking' := htracking.step hmove fun mu hmu => absurd hmu (hdelete mu)
  have hown := hahead t
  cases hmove with
  | enter hidle hstep =>
    obtain hroom | hfull := lt_or_ge ((w.core maxLocks).held t).n maxLocks
    · exact h.enter_room hidle hroom hstep
    · exact h.enter_full hidle hfull hstep
  | tryEnter => exact absurd rfl (htry _)
  | delete => exact absurd rfl (hdelete _)
  | tryEnterReturns htrying | tryEnterFails htrying => exact absurd htrying (h.blocking t _ _)
  | @leave mu c hidle hstep =>
    have heffect := Config.step_effect hstep
    have hleft := heffect.left htracking.inv (htracking.ignoreUnlock t) (htracking.holds t)
    have hev := heffect.evolves htracking.inv
    have hclean := (heffect.inv htracking.inv).clean
    rw [hidle, ahead] at hown
    refine h.same htracking' (ahead_update hahead (fun u hu => Function.update_of_ne hu ..) ?_)
      (blocking_update h.blocking nofun) rfl hleft.flag fun q m => ?_
    · rw [record_leave, Function.update_self, ← hown]
      rfl
    · rw [← recorded_iff (g := w.config.monitor.deadlockGraph) (fun x p hx => ⟨p, hx⟩)
        hclean.live_rightUnique fun x p hx => hev.live x p hx (by simp)]
      exact exists_congr fun x => exists_congr fun y =>
        and_congr_right fun _ => and_congr_right fun _ => hleft.arc x y
  | @enterReturns mu id m hentering =>
    rw [hentering] at hown
    refine h.same htracking' (ahead_update hahead (fun _ _ => rfl) ?_)
      (blocking_update h.blocking ?_) rfl rfl fun _ _ => Iff.rfl
    · rw [ahead_acquired]
      exact hown
    · intro q x
      unfold acquired
      split_ifs <;> nofun
  | @inLock mu id c hentered hstep =>
    have hcore := htracking.inLock_effect hentered hstep
    have hgraph : c.monitor.deadlockGraph = w.config.monitor.deadlockGraph :=
      congrArg Core.graph hcore
    rw [hentered, ahead] at hown
    rw [record_inLock hentered] at htracking'
    refine h.same htracking' (ahead_update hahead (fun u hu => Function.update_of_ne hu ..) ?_)
      (blocking_update h.blocking nofun) rfl (congrArg Core.potentialDeadlocksFound hcore)
      fun q m => ?_
    · rw [Function.update_self, ahead, ← hown]
      rfl
    · simp only [hooked, hgraph]
  | @leaveReturns mu m hleaving =>
    rw [hleaving] at hown
    refine h.same htracking' (ahead_update hahead (fun _ _ => rfl) ?_)
      (blocking_update h.blocking nofun) rfl rfl fun _ _ => Iff.rfl
    exact hown

end Determined

/-! ## Runs -/

/-- The calls of a thread in a run, without the steps in the functions that it calls. -/
def callsOf (as : List Act) (t : ThreadId) : List Action :=
  (as.filter fun a => a.thread = t ∧ a.action.isCall).map Act.action

theorem callsOf_append (as bs : List Act) (t : ThreadId) :
    callsOf (as ++ bs) t = callsOf as t ++ callsOf bs t := by
  simp [callsOf]

/-- The trail of a thread depends on its calls only. -/
theorem foldl_trail (maxLocks : Nat) (as : List Act) (trails : ThreadId → Trail) (t : ThreadId) :
    as.foldl (trail maxLocks) trails t = (callsOf as t).foldl (Trail.call maxLocks) (trails t) := by
  induction as generalizing trails with
  | nil => rfl
  | cons a as ih =>
    rw [List.foldl_cons, ih]
    by_cases ht : a.thread = t
    · subst ht
      have hself : trail maxLocks trails a a.thread =
          (trails a.thread).call maxLocks a.action := Function.update_self ..
      rw [hself]
      cases hcall : a.action.isCall with
      | true => simp [callsOf, hcall]
      | false =>
        have hnone : (trails a.thread).call maxLocks a.action = trails a.thread := by
          cases haction : a.action <;> simp_all [Action.isCall, Trail.call]
        rw [hnone]
        simp [callsOf, hcall]
    · have hother : trail maxLocks trails a t = trails t := Function.update_of_ne (Ne.symm ht) ..
      rw [hother]
      simp [callsOf, ht]

section Main

variable {maxLocks : Nat} {options : RuntimeOptions} {w w' : World} {as as' : List Act}

/-- A deadlock is found if and only if the pairs that the threads try have a cycle. -/
theorem found_iff (hrun : exec (step maxLocks) (start options) as = some w)
    (hblocking : ∀ a ∈ as, ∀ mu, a.action ≠ .tryEnter mu ∧ a.action ≠ .delete mu) :
    w.config.monitor.potentialDeadlocksFound = true ↔ ∃ h, TransGen
      (Tries fun t => (callsOf as t).foldl (Trail.call maxLocks) {}) h h := by
  have hstep : ∀ w trails a w', Determined maxLocks w trails →
      (∀ mu, a.action ≠ .tryEnter mu ∧ a.action ≠ .delete mu) → step maxLocks w a = some w' →
        Determined maxLocks w' (trail maxLocks trails a) :=
    fun w trails a w' h ha hstep =>
      h.step (step_moves hstep) (fun mu => (ha mu).1) fun mu => (ha mu).2
  have hdetermined : Determined maxLocks w (as.foldl (trail maxLocks) fun _ => {}) :=
    exec_simulation hstep (.start maxLocks options) hrun (along_of_mem fun _ => hblocking)
  have htrails : (as.foldl (trail maxLocks) fun _ => {}) =
      fun t => (callsOf as t).foldl (Trail.call maxLocks) {} :=
    funext fun t => foldl_trail maxLocks as _ t
  rw [htrails] at hdetermined
  refine ⟨hdetermined.cyclic, fun ⟨h, hcycle⟩ => ?_⟩
  by_contra hnot
  obtain ⟨held, htracking, -⟩ := hdetermined.tracked
  refine recorded_acyclic htracking.inv.clean.live_leftUnique htracking.inv.clean h
    (TransGen.mono (fun q m htry => ?_) _ _ hcycle)
  exact (hdetermined.tries (by simpa using hnot) q m).mp htry

/-- Two runs in which the threads make the same calls, and only calls of functions that block,
find a deadlock both or neither. -/
theorem potentialDeadlocksFound_independent {program : ThreadId → List Action}
    (hprogram : ∀ t, ∀ action ∈ program t, ∃ mu, action = .enter mu ∨ action = .leave mu)
    (hrun : exec (step maxLocks) (start options) as = some w)
    (hrun' : exec (step maxLocks) (start options) as' = some w')
    (hcalls : ∀ t, callsOf as t = program t) (hcalls' : ∀ t, callsOf as' t = program t) :
    w.config.monitor.potentialDeadlocksFound = w'.config.monitor.potentialDeadlocksFound := by
  have hblocking : ∀ {as}, (∀ t, callsOf as t = program t) → ∀ a ∈ as, ∀ mu,
      a.action ≠ .tryEnter mu ∧ a.action ≠ .delete mu := by
    intro as hcalls a ha mu
    have hmem : a.action.isCall = true → a.action ∈ program a.thread := by
      intro hcall
      rw [← hcalls a.thread]
      exact List.mem_map_of_mem (List.mem_filter.mpr ⟨ha, by simp [hcall]⟩)
    constructor <;> intro haction <;>
      obtain ⟨q, hq | hq⟩ := hprogram a.thread a.action (hmem (by rw [haction]; rfl)) <;>
      cases haction.symm.trans hq
  have hfound := found_iff hrun (hblocking hcalls)
  have hfound' := found_iff hrun' (hblocking hcalls')
  simp only [hcalls, hcalls'] at hfound hfound'
  exact Bool.eq_iff_iff.mpr (hfound.trans hfound'.symm)

end Main

/-- A thread enters two locks and leaves them. -/
def nest (t : ThreadId) (p q : Addr) : List Act :=
  [⟨t, .enter p, 1⟩, ⟨t, .enterReturns, 1⟩, ⟨t, .inLock, 1⟩,
   ⟨t, .enter q, 1⟩, ⟨t, .enterReturns, 1⟩, ⟨t, .inLock, 1⟩,
   ⟨t, .leave q, 1⟩, ⟨t, .leaveReturns, 1⟩, ⟨t, .leave p, 1⟩, ⟨t, .leaveReturns, 1⟩]

theorem callsOf_nest (u t : ThreadId) (p q : Addr) : callsOf (nest u p q) t =
    if u = t then [.enter p, .enter q, .leave q, .leave p] else [] := by
  split_ifs with h <;> simp [callsOf, nest, Action.isCall, h]

def firstThenSecond : List Act := nest 1 16 32 ++ nest 2 32 16

def secondThenFirst : List Act := nest 2 32 16 ++ nest 1 16 32

theorem potentialDeadlocksFound_independent_sample : ∃ w w',
    exec (step 20) (start {}) firstThenSecond = some w ∧
    exec (step 20) (start {}) secondThenFirst = some w' ∧
    w.config.monitor.potentialDeadlocksFound = w'.config.monitor.potentialDeadlocksFound := by
  have hreturns : (exec (step 20) (start {}) firstThenSecond).isSome = true := by decide +kernel
  have hreturns' : (exec (step 20) (start {}) secondThenFirst).isSome = true := by decide +kernel
  obtain ⟨w, hrun⟩ := Option.isSome_iff_exists.mp hreturns
  obtain ⟨w', hrun'⟩ := Option.isSome_iff_exists.mp hreturns'
  refine ⟨w, w', hrun, hrun', potentialDeadlocksFound_independent
    ?_ hrun hrun' (fun _ => rfl) ?_⟩
  · intro t action haction
    simp only [firstThenSecond, callsOf_append, callsOf_nest] at haction
    grind
  · intro t
    simp only [firstThenSecond, secondThenFirst, callsOf_append, callsOf_nest]
    grind

end World
end CppGuard
