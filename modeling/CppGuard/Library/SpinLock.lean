import CppGuard.Library.Linearization
import Mathlib.Logic.Function.Basic

/-!
# Sections under a spin lock

A thread that enters exchanges a flag for `true`. If the flag was `true` before, then the thread
reads it until it is `false`, and only then tries again. A section is a sequence of steps on the
shared state; between any two steps of a thread the others may run. What comes out is what the
sections do one at a time, in the order in which the lock was taken.
-/
namespace SpinLock
open Transition

/-- Where a thread is, and what it has still to do there. -/
inductive Position (C L : Type*) where
  | outside
  /-- It exchanges the flag next. -/
  | exchanging (c : C)
  /-- It reads the flag until it is `false`. -/
  | spinning (c : C)
  /-- It has the lock. With `none` it is at the end of its section. -/
  | inside (rest : Option L)
  deriving DecidableEq, Repr

structure State (T S C L : Type*) where
  flag : Bool := false
  position : T → Position C L := fun _ => .outside
  shared : S

inductive Event (T C : Type*) where
  /-- A thread makes a call. -/
  | call (i : T) (c : C)
  /-- A thread makes its next step. -/
  | run (i : T)
  deriving DecidableEq, Repr

variable {T S C L : Type*} [DecidableEq T]

def Event.thread : Event T C → T
  | .call i _ | .run i => i

namespace State

/-- Only the position of one thread changes. -/
def put (s : State T S C L) (i : T) (p : Position C L) : State T S C L :=
  { s with position := Function.update s.position i p }

variable {s : State T S C L} {i j : T} {p : Position C L}

@[simp] theorem put_flag : (s.put i p).flag = s.flag := rfl
@[simp] theorem put_shared : (s.put i p).shared = s.shared := rfl
@[simp] theorem put_position_self : (s.put i p).position i = p := Function.update_self ..

@[simp] theorem put_position_of_ne (h : j ≠ i) : (s.put i p).position j = s.position j :=
  Function.update_of_ne h ..

end State

/-- `enter` is the section of a call, and `act` is one step of a section; it returns what is left
of the section. -/
def step (enter : C → L) (act : S → L → S × Option L) (s : State T S C L) :
    Event T C → Option (State T S C L)
  | .call i c =>
    match s.position i with
    | .outside => some (s.put i (.exchanging c))
    | _ => none
  | .run i =>
    match s.position i with
    | .outside => none
    | .exchanging c =>
      if s.flag then some (s.put i (.spinning c))
      else some { s.put i (.inside (some (enter c))) with flag := true }
    | .spinning c => if s.flag then some s else some (s.put i (.exchanging c))
    | .inside (some l) =>
      some { s.put i (.inside (act s.shared l).2) with shared := (act s.shared l).1 }
    | .inside none => some { s.put i .outside with flag := false }

/-- The call whose thread takes the lock with the event. -/
def acquired (s : State T S C L) : Event T C → List (T × C)
  | .call _ _ => []
  | .run i =>
    match s.position i with
    | .exchanging c => if s.flag then [] else [(i, c)]
    | _ => []

/-- The call of the thread that waits for the lock. -/
def waiting (i : T) (s : State T S C L) : List C :=
  match s.position i with
  | .exchanging c | .spinning c => [c]
  | _ => []

/-- The calls that the thread makes. -/
def called (i : T) : Event T C → List C
  | .call j c => if j = i then [c] else []
  | .run _ => []

def callOf (i : T) (c : T × C) : List C := if c.1 = i then [c.2] else []

/-! ## The steps -/

variable {enter : C → L} {act : S → L → S × Option L} {s t : State T S C L} {e : Event T C}
  {es : List (Event T C)}

/-- All that a step can do. -/
inductive Move (enter : C → L) (act : S → L → S × Option L) (s : State T S C L) :
    Event T C → State T S C L → Prop
  | call {i c} (h : s.position i = .outside) :
      Move enter act s (.call i c) (s.put i (.exchanging c))
  | fail {i c} (h : s.position i = .exchanging c) (flag : s.flag = true) :
      Move enter act s (.run i) (s.put i (.spinning c))
  | acquire {i c} (h : s.position i = .exchanging c) (flag : s.flag = false) :
      Move enter act s (.run i) { s.put i (.inside (some (enter c))) with flag := true }
  | spin {i c} (h : s.position i = .spinning c) (flag : s.flag = true) :
      Move enter act s (.run i) s
  | retry {i c} (h : s.position i = .spinning c) (flag : s.flag = false) :
      Move enter act s (.run i) (s.put i (.exchanging c))
  | act {i l} (h : s.position i = .inside (some l)) :
      Move enter act s (.run i)
        { s.put i (.inside (act s.shared l).2) with shared := (act s.shared l).1 }
  | release {i} (h : s.position i = .inside none) :
      Move enter act s (.run i) { s.put i .outside with flag := false }

theorem move_of_step (h : step enter act s e = some t) : Move enter act s e t := by
  cases e with
  | call i c =>
    simp only [step] at h
    split at h
    · obtain rfl := Option.some.inj h
      exact .call ‹_›
    · cases h
  | run i =>
    simp only [step] at h
    split at h
    · cases h
    · split_ifs at h with hflag <;> obtain rfl := Option.some.inj h
      · exact .fail ‹_› hflag
      · exact .acquire ‹_› (Bool.not_eq_true _ ▸ hflag)
    · split_ifs at h with hflag <;> obtain rfl := Option.some.inj h
      · exact .spin ‹_› hflag
      · exact .retry ‹_› (Bool.not_eq_true _ ▸ hflag)
    · obtain rfl := Option.some.inj h
      exact .act ‹_›
    · obtain rfl := Option.some.inj h
      exact .release ‹_›

/-! ## One section at a time -/

/-- A part of the section `l` was run from `a`: the shared state is `s`, and `rest` is left. -/
inductive Partway (act : S → L → S × Option L) (a : S) (l : L) : S → Option L → Prop
  | start : Partway act a l a (some l)
  | act {s l'} (h : Partway act a l s (some l')) : Partway act a l (act s l').1 (act s l').2

/-- `calls` are the calls that took the lock. With the lock free all of them are over. With the
lock taken the last one is underway, and its thread is the only one inside. -/
inductive Serial (enter : C → L) (act : S → L → S × Option L) (after : S → C → S) (a : S)
    (s : State T S C L) : List (T × C) → Prop
  | free {calls} (flag : s.flag = false) (outside : ∀ i rest, s.position i ≠ .inside rest)
      (shared : s.shared = calls.foldl (fun b c => after b c.2) a) :
      Serial enter act after a s calls
  | held {calls i c rest} (flag : s.flag = true) (inside : s.position i = .inside rest)
      (only : ∀ j rest, s.position j = .inside rest → j = i)
      (partway : Partway act (calls.foldl (fun b c => after b c.2) a) (enter c)
        s.shared rest) :
      Serial enter act after a s (calls ++ [(i, c)])

namespace Serial

variable {after : S → C → S} {a : S} {calls : List (T × C)}

/-- Outside of the lock nothing is touched that matters. -/
theorem put {i : T} {p : Position C L} (h : Serial enter act after a s calls)
    (hs : ∀ rest, s.position i ≠ .inside rest) (hp : ∀ rest, p ≠ .inside rest) :
    Serial enter act after a (s.put i p) calls := by
  have hinside : ∀ j rest, (s.put i p).position j = .inside rest →
      s.position j = .inside rest := by
    intro j rest hj
    obtain rfl | hne := eq_or_ne j i
    · exact absurd (State.put_position_self.symm.trans hj) (hp rest)
    · rwa [State.put_position_of_ne hne] at hj
  cases h with
  | free flag outside shared =>
    exact .free flag (fun j rest hj => outside j rest (hinside j rest hj)) shared
  | @held done j c rest flag inside only partway =>
    have hne : j ≠ i := by
      rintro rfl
      exact hs rest inside
    refine .held flag ((State.put_position_of_ne hne).trans inside) ?_ partway
    exact fun k rest hk => only k rest (hinside k rest hk)

theorem acquire {i : T} {c : C} (h : Serial enter act after a s calls) (flag : s.flag = false) :
    Serial enter act after a { s.put i (.inside (some (enter c))) with flag := true }
      (calls ++ [(i, c)]) := by
  cases h with
  | held hflag => simp [flag] at hflag
  | free _ outside shared =>
    refine .held rfl State.put_position_self ?_ (shared ▸ .start)
    intro j rest hj
    by_contra hne
    exact outside j rest ((State.put_position_of_ne hne).symm.trans hj)

theorem proceed {i : T} {l : L} (h : Serial enter act after a s calls)
    (hi : s.position i = .inside (some l)) :
    Serial enter act after a
      { s.put i (.inside (act s.shared l).2) with shared := (act s.shared l).1 } calls := by
  cases h with
  | free _ outside _ => exact absurd hi (outside i _)
  | held flag inside only partway =>
    obtain rfl := only i _ hi
    obtain rfl := Position.inside.inj (inside.symm.trans hi)
    refine .held flag State.put_position_self ?_ partway.act
    intro j rest hj
    by_contra hne
    exact hne (only j rest ((State.put_position_of_ne hne).symm.trans hj))

theorem release {i : T}
    (hafter : ∀ a c b, Partway act a (enter c) b none → b = after a c)
    (h : Serial enter act after a s calls) (hi : s.position i = .inside none) :
    Serial enter act after a { s.put i .outside with flag := false } calls := by
  cases h with
  | free _ outside _ => exact absurd hi (outside i _)
  | @held done _ l _ _ inside only partway =>
    obtain rfl := only i _ hi
    obtain rfl := Position.inside.inj (inside.symm.trans hi)
    refine .free rfl ?_ ?_
    · intro j rest hj
      obtain rfl | hne := eq_or_ne j i
      · exact absurd (State.put_position_self.symm.trans hj) (by simp)
      · exact hne (only j rest ((State.put_position_of_ne hne).symm.trans hj))
    · simpa using hafter _ _ _ partway

theorem step (hafter : ∀ a c b, Partway act a (enter c) b none → b = after a c)
    (h : Serial enter act after a s calls) (he : step enter act s e = some t) :
    Serial enter act after a t (calls ++ acquired s e) := by
  cases move_of_step he with
  | call hi => simpa [acquired] using h.put (by simp [hi]) (by simp)
  | fail hi flag => simpa [acquired, hi, flag] using h.put (by simp [hi]) (by simp)
  | acquire hi flag => simpa [acquired, hi, flag] using h.acquire flag
  | spin hi flag => simpa [acquired, hi] using h
  | retry hi flag => simpa [acquired, hi] using h.put (by simp [hi]) (by simp)
  | act hi => simpa [acquired, hi] using h.proceed hi
  | release hi => simpa [acquired, hi] using h.release hafter hi

omit [DecidableEq T] in
theorem flag_of_idle (h : Serial enter act after a s calls) (hidle : ∀ i, s.position i = .outside) :
    s.flag = false := by
  cases h with
  | free flag => exact flag
  | @held _ i _ _ _ inside => simp [hidle] at inside

end Serial

/-- In every run the lock makes the sections one step each, in the order in which it was taken. -/
theorem exec_serial {after : S → C → S}
    (hafter : ∀ a c b, Partway act a (enter c) b none → b = after a c)
    (hflag : s.flag = false) (hs : ∀ i rest, s.position i ≠ .inside rest)
    (h : exec (step enter act) s es = some t) :
    Serial enter act after s.shared t (linearization (step enter act) acquired s es) := by
  have hserial : Serial enter act after s.shared s [] := .free hflag hs rfl
  exact linearization_invariant (fun u calls e v hu he => hu.step hafter he) hserial h

/-- A thread gets the lock for its calls in their order. -/
theorem exec_called (i : T) (h : exec (step enter act) s es = some t) :
    waiting i s ++ es.flatMap (called i) =
      (linearization (step enter act) acquired s es).flatMap (callOf i) ++ waiting i t := by
  refine linearization_balance ?_ h
  intro s e t he
  cases move_of_step he with
  | @call j c hj =>
    obtain rfl | hne := eq_or_ne i j
    · simp [waiting, called, acquired, hj]
    · simp [waiting, called, acquired, State.put_position_of_ne hne, hne.symm]
  | @fail j c hj flag =>
    obtain rfl | hne := eq_or_ne i j
    · simp [waiting, called, acquired, hj, flag]
    · simp [waiting, called, acquired, hj, flag, State.put_position_of_ne hne]
  | @acquire j c hj flag =>
    obtain rfl | hne := eq_or_ne i j
    · simp [waiting, called, acquired, hj, flag, callOf, State.put]
    · simp [waiting, called, acquired, hj, flag, callOf, State.put, hne, hne.symm]
  | @spin j c hj flag =>
    simp [called, acquired, hj]
  | @retry j c hj flag =>
    obtain rfl | hne := eq_or_ne i j
    · simp [waiting, called, acquired, hj]
    · simp [waiting, called, acquired, hj, State.put_position_of_ne hne]
  | @act j l hj =>
    obtain rfl | hne := eq_or_ne i j
    · simp [waiting, called, acquired, hj, State.put]
    · simp [waiting, called, acquired, hj, State.put, hne]
  | @release j hj =>
    obtain rfl | hne := eq_or_ne i j
    · simp [waiting, called, acquired, hj, State.put]
    · simp [waiting, called, acquired, hj, State.put, hne]

/-- A step moves no other thread. -/
theorem exec_position {i : T} (hi : i ∉ es.map Event.thread)
    (h : exec (step enter act) s es = some t) : t.position i = s.position i := by
  refine exec_invariant_of_mem (P := fun u => u.position i = s.position i) ?_ rfl h
  intro u e he v hu hstep
  have hne : i ≠ e.thread := fun heq => hi (heq ▸ List.mem_map_of_mem he)
  cases move_of_step hstep with
  | spin => exact hu
  | _ => exact (State.put_position_of_ne hne).trans hu

/-! ## Every call can return -/

section Return

variable (enter) (rank : S → L → Nat)

/-- The thread that has the lock gives it back if it runs alone. -/
theorem exec_inside
    (hrank : ∀ s l l', (act s l).2 = some l' → rank (act s l).1 l' < rank s l) {i : T}
    {rest : Option L} (hi : s.position i = .inside rest) :
    ∃ (is : List T) (t : State T S C L), exec (step enter act) s (is.map .run) = some t ∧
      t.flag = false ∧ t.position = Function.update s.position i .outside := by
  induction hn : rest.elim 0 (fun l => rank s.shared l + 1) using Nat.strongRecOn
    generalizing s rest with
  | ind n ih =>
    cases rest with
    | none =>
      refine ⟨[i], { s.put i .outside with flag := false }, ?_, rfl, rfl⟩
      simp [exec, step, hi]
    | some l =>
      have hlt : (act s.shared l).2.elim 0 (fun l' => rank (act s.shared l).1 l' + 1) < n := by
        subst hn
        cases hrest : (act s.shared l).2 with
        | none => exact Nat.succ_pos _
        | some l' => exact Nat.succ_lt_succ (hrank _ _ _ hrest)
      obtain ⟨is, t, hrun, hflag, hposition⟩ := ih _ hlt
        (s := { s.put i (.inside (act s.shared l).2) with shared := (act s.shared l).1 })
        State.put_position_self rfl
      refine ⟨i :: is, t, exec_cons.mpr ⟨_, by simp [step, hi], hrun⟩, hflag, ?_⟩
      simpa [State.put] using hposition

/-- A thread that waits for the free lock gets it and gives it back if it runs alone. -/
theorem exec_waiting
    (hrank : ∀ s l l', (act s l).2 = some l' → rank (act s l).1 l' < rank s l) {i : T}
    (hflag : s.flag = false) (hi : waiting i s ≠ []) :
    ∃ (is : List T) (t : State T S C L), exec (step enter act) s (is.map .run) = some t ∧
      t.flag = false ∧ t.position = Function.update s.position i .outside := by
  have hexchanging : ∀ (s : State T S C L) c, s.flag = false → s.position i = .exchanging c →
      ∃ (is : List T) (t : State T S C L), exec (step enter act) s (is.map .run) = some t ∧
        t.flag = false ∧ t.position = Function.update s.position i .outside := by
    intro s c hflag hi
    obtain ⟨is, t, hrun, htflag, hposition⟩ := exec_inside enter rank hrank
      (s := { s.put i (.inside (some (enter c))) with flag := true }) State.put_position_self
    refine ⟨i :: is, t, exec_cons.mpr ⟨_, by simp [step, hi, hflag], hrun⟩, htflag, ?_⟩
    simpa [State.put] using hposition
  cases hposition : s.position i with
  | outside | inside => simp [waiting, hposition] at hi
  | exchanging c => exact hexchanging s c hflag hposition
  | spinning c =>
    obtain ⟨is, t, hrun, htflag, ht⟩ :=
      hexchanging (s.put i (.exchanging c)) c hflag State.put_position_self
    refine ⟨i :: is, t, exec_cons.mpr ⟨_, by simp [step, hposition, hflag], hrun⟩, htflag, ?_⟩
    simpa [State.put] using ht

omit [DecidableEq T] in
theorem position_eq_outside {i : T} (hi : waiting i s = [])
    (hinside : ∀ rest, s.position i ≠ .inside rest) : s.position i = .outside := by
  cases hposition : s.position i with
  | outside => rfl
  | inside rest => exact absurd hposition (hinside rest)
  | exchanging c | spinning c => simp [waiting, hposition] at hi

/-- The threads that wait for the free lock return one after the other. -/
theorem exec_drain_of_free
    (hrank : ∀ s l l', (act s l).2 = some l' → rank (act s l).1 l' < rank s l) {is : List T}
    (hflag : s.flag = false) (houtside : ∀ i rest, s.position i ≠ .inside rest)
    (his : ∀ i, s.position i ≠ .outside → i ∈ is) :
    ∃ (js : List T) (t : State T S C L), exec (step enter act) s (js.map .run) = some t ∧
      ∀ i, t.position i = .outside := by
  induction is generalizing s with
  | nil => exact ⟨[], s, rfl, by simpa using his⟩
  | cons i is ih =>
    by_cases hi : waiting i s = []
    · have hposition := position_eq_outside hi (houtside i)
      exact ih hflag houtside (by grind)
    · obtain ⟨js, u, hjs, huflag, hu⟩ := exec_waiting enter rank hrank hflag hi
      have hposition : ∀ j, u.position j = if j = i then .outside else s.position j := by
        simp [hu, Function.update_apply]
      obtain ⟨ks, t, hks, ht⟩ := ih huflag (by grind) (by grind)
      exact ⟨js ++ ks, t, by rw [List.map_append]; exact exec_append.mpr ⟨u, hjs, hks⟩, ht⟩

/-- After every run the threads that are underway can return, with no call made in between. -/
theorem exec_drain {after : S → C → S}
    (hafter : ∀ a c b, Partway act a (enter c) b none → b = after a c)
    (hrank : ∀ s l l', (act s l).2 = some l' → rank (act s l).1 l' < rank s l)
    (hflag : s.flag = false) (hidle : ∀ i, s.position i = .outside)
    (h : exec (step enter act) s es = some t) :
    ∃ (is : List T) (u : State T S C L), exec (step enter act) t (is.map .run) = some u ∧
      ∀ i, u.position i = .outside := by
  have hthreads : ∀ i, t.position i ≠ .outside → i ∈ es.map Event.thread := by
    intro i hi
    by_contra hnot
    exact hi ((exec_position hnot h).trans (hidle i))
  generalize hcalls : linearization (step enter act) acquired s es = calls
  cases hcalls ▸ exec_serial hafter hflag (by simp [hidle]) h with
  | free htflag houtside => exact exec_drain_of_free enter rank hrank htflag houtside hthreads
  | @held _ i _ _ _ hinside honly =>
    obtain ⟨js, u, hjs, huflag, hu⟩ := exec_inside enter rank hrank hinside
    have hposition : ∀ j, u.position j = if j = i then .outside else t.position j := by
      simp [hu, Function.update_apply]
    have huthreads : ∀ j, u.position j ≠ .outside → j ∈ es.map Event.thread := by
      grind
    obtain ⟨ks, v, hks, hv⟩ := exec_drain_of_free enter rank hrank huflag (by grind) huthreads
    exact ⟨js ++ ks, v, by rw [List.map_append]; exact exec_append.mpr ⟨u, hjs, hks⟩, hv⟩

end Return

/-! ## Failed exchanges -/

/-- The exchange of the thread that finds the flag set. -/
def failed (i : T) (s : State T S C L) : Event T C → List C
  | .call _ _ => []
  | .run j =>
    match s.position j with
    | .exchanging c => if s.flag = true ∧ j = i then [c] else []
    | _ => []

/-- 1 if the next exchange of the thread fails unless the lock is given back before. -/
def doomed (i : T) (s : State T S C L) : Nat :=
  match s.position i with
  | .exchanging _ => s.flag.toNat
  | _ => 0

omit [DecidableEq T] in
theorem doomed_le (i : T) (s : State T S C L) : doomed i s ≤ 1 := by
  grind [doomed, Bool.toNat_le]

omit [DecidableEq T] in
theorem doomed_of_free (i : T) (hs : s.flag = false) : doomed i s = 0 := by
  grind [doomed]

theorem failed_step_le (i : T) (he : step enter act s e = some t) :
    (failed i s e).length + doomed i t ≤
      doomed i s + (called i e).length + (acquired s e).countP (·.1 ≠ i) := by
  cases move_of_step he with
  | @call j c hj =>
    obtain rfl | hne := eq_or_ne i j
    · simpa [failed, called, acquired, doomed, hj] using s.flag.toNat_le
    · simp [failed, called, acquired, doomed, State.put_position_of_ne hne, hne.symm]
  | @fail j c hj flag =>
    obtain rfl | hne := eq_or_ne i j
    · simp [failed, called, acquired, doomed, hj, flag]
    · simp [failed, called, acquired, doomed, hj, flag, State.put_position_of_ne hne, hne.symm]
  | @acquire j c hj flag =>
    obtain rfl | hne := eq_or_ne i j
    · simp [failed, called, acquired, doomed, hj, flag, State.put]
    · simpa [failed, called, acquired, hj, flag, hne.symm] using
        Nat.le_trans (doomed_le i _) (Nat.le_add_left 1 _)
  | @spin j c hj flag => simp [failed, called, acquired, hj]
  | @retry j c hj flag =>
    simp [failed, called, acquired, hj, doomed_of_free i (s := s.put j (.exchanging c)) flag]
  | @act j l hj =>
    obtain rfl | hne := eq_or_ne i j
    · simp [failed, called, acquired, doomed, hj, State.put]
    · simp [failed, called, acquired, doomed, hj, State.put, hne]
  | @release j hj =>
    rw [doomed_of_free i rfl]
    simp [failed, called, acquired, hj]

/-- An exchange fails at the first try, or because another thread took the lock since the last. -/
theorem exec_failed_le (i : T) (h : exec (step enter act) s es = some t) :
    (linearization (step enter act) (failed i) s es).length + doomed i t ≤
      doomed i s + (es.flatMap (called i)).length +
        (linearization (step enter act) acquired s es).countP (·.1 ≠ i) := by
  induction es generalizing s with
  | nil =>
    obtain rfl := Option.some.inj h
    simp [linearization]
  | cons e es ih =>
    obtain ⟨u, hu, hes⟩ := exec_cons.mp h
    have hstep := failed_step_le i hu
    have hrest := ih hes
    simp only [linearization, hu, List.flatMap_cons, List.length_append, List.countP_append]
    omega

end SpinLock
