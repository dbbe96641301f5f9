import CppGuard.ThreadHistory
import CppGuard.ThreadWatchdog

/-!
# The list of watched threads

What the sections of the watchdog do to the list: a removal moves the last entry to the place
of the removed one, and a scan clears the flags of the threads that it finds idle and sets that
of the thread that it reports.
-/
namespace CppGuard
open CountedList

namespace ThreadWatchdog

variable {p : SyncPtr} {now maxDurationSec d : Nat} {starts : SyncPtr → Nat}
  {threads : List ThreadInfo}

/-- The list without the entry of a thread. -/
def withoutThread (threads : List ThreadInfo) (thread : ThreadId) : List ThreadInfo :=
  match threads.findIdx? (fun o => o.threadId = thread), threads.getLast? with
  | some i, some back => (threads.set i back).dropLast
  | _, _ => threads

theorem addThread_list (w : ThreadWatchdog) (options : RuntimeOptions) (thread : ThreadId)
    (snch : SyncPtr) : (w.addThread options thread snch).threads =
      if options.threadWatchdogEnabled = true then
        w.threads ++ [{ syncPtr := snch, threadId := thread }]
      else w.threads := by
  unfold addThread
  cases options.threadWatchdogEnabled with
  | false => rfl
  | true =>
    simp only [Bool.true_eq_false, if_false, if_true]
    split_ifs <;> rfl

theorem removeThread_list (w : ThreadWatchdog) (options : RuntimeOptions) (thread : ThreadId) :
    (w.removeThread options thread).threads =
      if options.threadWatchdogEnabled = true then withoutThread w.threads thread
      else w.threads := by
  unfold removeThread withoutThread
  cases options.threadWatchdogEnabled with
  | false => rfl
  | true =>
    simp only [Bool.true_eq_false, if_false, if_true]
    cases w.threads.findIdx? (fun o => o.threadId = thread) <;> cases w.threads.getLast? <;> rfl

theorem debuggerPresent_addThread (w : ThreadWatchdog) (options : RuntimeOptions)
    (thread : ThreadId) (snch : SyncPtr) :
    (w.addThread options thread snch).debuggerPresent = w.debuggerPresent := by
  unfold addThread
  split_ifs
  · rfl
  · dsimp only
    split_ifs <;> rfl

theorem debuggerPresent_removeThread (w : ThreadWatchdog) (options : RuntimeOptions)
    (thread : ThreadId) :
    (w.removeThread options thread).debuggerPresent = w.debuggerPresent := by
  unfold removeThread
  split_ifs
  · rfl
  · split <;> rfl

/-- The entry of a thread is removed, if there is one. -/
theorem withoutThread_cases (threads : List ThreadInfo) (thread : ThreadId) :
    ((∀ o ∈ threads, o.threadId ≠ thread) ∧ withoutThread threads thread = threads) ∨
      ∃ a o b, threads = a ++ o :: b ∧ o.threadId = thread ∧
        withoutThread threads thread = a ++ closeGap b := by
  unfold withoutThread
  cases hfind : threads.findIdx? (fun o => o.threadId = thread) with
  | none =>
    refine Or.inl ⟨?_, rfl⟩
    simpa [List.findIdx?_eq_none_iff] using hfind
  | some i =>
    obtain ⟨hi, hid, -⟩ := List.findIdx?_eq_some_iff_getElem.mp hfind
    obtain ⟨a, o, b, hsplit, hlength, ho⟩ : ∃ a o b, threads = a ++ o :: b ∧ a.length = i ∧
        o.threadId = thread := by
      refine ⟨threads.take i, threads[i], threads.drop (i + 1), ?_, ?_, by simpa using hid⟩
      · rw [← List.drop_eq_getElem_cons hi, List.take_append_drop]
      · rw [List.length_take]
        omega
    refine Or.inr ⟨a, o, b, hsplit, ho, ?_⟩
    obtain rfl | ⟨b, z, rfl⟩ := List.eq_nil_or_concat' b
    · have hlast : threads.getLast? = some o := by
        rw [hsplit]
        exact List.getLast?_concat
      rw [hlast]
      change (threads.set i o).dropLast = a ++ closeGap []
      rw [hsplit, ← hlength, ThreadHistory.set_mid, List.dropLast_concat]
      exact (List.append_nil a).symm
    · have hlast : threads.getLast? = some z := by
        rw [hsplit, ← List.cons_append, ← List.append_assoc]
        exact List.getLast?_concat
      rw [hlast]
      change (threads.set i z).dropLast = a ++ closeGap (b ++ [z])
      rw [hsplit, ← hlength, ThreadHistory.set_mid, closeGap_concat, ← List.cons_append,
        ← List.append_assoc, List.dropLast_concat]

theorem withoutThread_perm (threads : List ThreadInfo) (thread : ThreadId) : ∃ rest,
    (withoutThread threads thread).Perm rest ∧ rest.Sublist threads := by
  obtain ⟨-, hsame⟩ | ⟨a, o, b, rfl, -, hwithout⟩ := withoutThread_cases threads thread
  · exact ⟨threads, .of_eq hsame, .refl _⟩
  · refine ⟨a ++ b, ?_, (List.sublist_cons_self o b).append_left a⟩
    rw [hwithout]
    exact (closeGap_perm b).append_left a

/-! ## Scans -/

/-- The thread has been watched since `lock_start_time_point` for too long. -/
def Overlong (starts : SyncPtr → Nat) (maxDurationSec now : Nat) (o : ThreadInfo) : Prop :=
  starts o.syncPtr ≠ 0 ∧ starts o.syncPtr + maxDurationSec * 1000 ≤ now

/-- An idle thread may be reported again. -/
def clearIdle (starts : SyncPtr → Nat) (now : Nat) (o : ThreadInfo) : ThreadInfo :=
  if starts o.syncPtr = 0 ∨ now ≤ starts o.syncPtr then { o with alreadyLogged := false } else o

@[simp] theorem syncPtr_clearIdle (starts : SyncPtr → Nat) (now : Nat) (o : ThreadInfo) :
    (clearIdle starts now o).syncPtr = o.syncPtr := by
  unfold clearIdle
  split_ifs <;> rfl

/-- A thread is reported: it is the first one that is due and not marked. -/
theorem scanThreads_found (h : (scanThreads starts maxDurationSec now threads).2 = some (p, d)) :
    ∃ a o b, threads = a ++ o :: b ∧ o.syncPtr = p ∧ o.alreadyLogged = false ∧
      starts p ≠ 0 ∧ starts p < now ∧ starts p + maxDurationSec * 1000 ≤ now ∧
      d = now - starts p ∧ (scanThreads starts maxDurationSec now threads).1 =
        a.map (clearIdle starts now) ++ { o with alreadyLogged := true } :: b := by
  induction threads with
  | nil => cases h
  | cons o threads ih =>
    simp only [scanThreads] at h ⊢
    split_ifs at h ⊢ with hidle hlogged hdue
    · obtain ⟨a, x, b, rfl, hx, hclear, hne, hlt, hle, hd, hrest⟩ := ih h
      refine ⟨o :: a, x, b, rfl, hx, hclear, hne, hlt, hle, hd, ?_⟩
      simp only [hrest, List.map_cons, clearIdle, hidle, if_true, List.cons_append]
    · obtain ⟨a, x, b, rfl, hx, hclear, hne, hlt, hle, hd, hrest⟩ := ih h
      refine ⟨o :: a, x, b, rfl, hx, hclear, hne, hlt, hle, hd, ?_⟩
      simp only [hrest, List.map_cons, clearIdle, hidle, if_false, List.cons_append]
    · obtain ⟨rfl, rfl⟩ := Prod.mk.inj (Option.some.inj h)
      push Not at hidle
      refine ⟨[], o, threads, rfl, rfl, by simpa using hlogged, hidle.1, hidle.2, ?_, rfl, rfl⟩
      omega
    · obtain ⟨a, x, b, rfl, hx, hclear, hne, hlt, hle, hd, hrest⟩ := ih h
      refine ⟨o :: a, x, b, rfl, hx, hclear, hne, hlt, hle, hd, ?_⟩
      simp only [hrest, List.map_cons, clearIdle, hidle, if_false, List.cons_append]

/-- No thread is reported: those that are due are marked. -/
theorem scanThreads_none (h : (scanThreads starts maxDurationSec now threads).2 = none) :
    (scanThreads starts maxDurationSec now threads).1 = threads.map (clearIdle starts now) ∧
      ∀ o ∈ threads, starts o.syncPtr < now → Overlong starts maxDurationSec now o →
        o.alreadyLogged = true := by
  induction threads with
  | nil => simp [scanThreads]
  | cons o threads ih =>
    simp only [scanThreads] at h ⊢
    split_ifs at h ⊢ with hidle hlogged hdue
    · obtain ⟨hrest, hall⟩ := ih h
      refine ⟨by simp only [hrest, List.map_cons, clearIdle, hidle, if_true], ?_⟩
      refine List.forall_mem_cons.mpr ⟨fun hlt hover => ?_, hall⟩
      exact absurd hidle (not_or.mpr ⟨hover.1, Nat.not_le.mpr hlt⟩)
    · obtain ⟨hrest, hall⟩ := ih h
      refine ⟨by simp only [hrest, List.map_cons, clearIdle, hidle, if_false], ?_⟩
      exact List.forall_mem_cons.mpr ⟨fun _ _ => hlogged, hall⟩
    · obtain ⟨hrest, hall⟩ := ih h
      refine ⟨by simp only [hrest, List.map_cons, clearIdle, hidle, if_false], ?_⟩
      refine List.forall_mem_cons.mpr ⟨fun hlt hover => ?_, hall⟩
      have := hover.2
      omega

/-- Scans only write the flags. -/
theorem scanThreads_ids (starts : SyncPtr → Nat) (maxDurationSec now : Nat)
    (threads : List ThreadInfo) :
    (scanThreads starts maxDurationSec now threads).1.map (fun o => (o.syncPtr, o.threadId)) =
      threads.map fun o => (o.syncPtr, o.threadId) := by
  have hclear : ∀ o, ((clearIdle starts now o).syncPtr, (clearIdle starts now o).threadId) =
      (o.syncPtr, o.threadId) := by
    intro o
    unfold clearIdle
    split_ifs <;> rfl
  cases hfound : (scanThreads starts maxDurationSec now threads).2 with
  | none =>
    rw [(scanThreads_none hfound).1, List.map_map]
    exact List.map_congr_left fun o _ => hclear o
  | some found =>
    obtain ⟨p, d⟩ := found
    obtain ⟨a, o, b, rfl, -, -, -, -, -, -, hscan⟩ := scanThreads_found hfound
    rw [hscan, List.map_append, List.map_append, List.map_map, List.map_cons, List.map_cons]
    exact congrArg (· ++ _) (List.map_congr_left fun o _ => hclear o)

/-- A scan keeps the marks of the threads that are busy, and marks the thread that it reports. -/
theorem scanThreads_marked {reported : SyncPtr → Bool}
    (nodup : (threads.map ThreadInfo.syncPtr).Nodup)
    (marked : ∀ o ∈ threads, reported o.syncPtr = true →
      o.alreadyLogged = true ∧ starts o.syncPtr ≠ 0 ∧ starts o.syncPtr < now) :
    ∀ o ∈ (scanThreads starts maxDurationSec now threads).1,
      reported o.syncPtr = true ∨
        (scanThreads starts maxDurationSec now threads).2.map Prod.fst = some o.syncPtr →
      o.alreadyLogged = true ∧ starts o.syncPtr ≠ 0 ∧ starts o.syncPtr < now := by
  have cleared : ∀ o ∈ threads, reported o.syncPtr = true → clearIdle starts now o = o := by
    intro o ho hreported
    obtain ⟨-, hne, hlt⟩ := marked o ho hreported
    exact if_neg (not_or.mpr ⟨hne, Nat.not_le.mpr hlt⟩)
  cases hfound : (scanThreads starts maxDurationSec now threads).2 with
  | none =>
    rw [(scanThreads_none hfound).1]
    intro o ho hreported
    obtain ⟨x, hx, rfl⟩ := List.mem_map.mp ho
    rw [syncPtr_clearIdle] at hreported
    have hreported := hreported.resolve_right nofun
    rw [cleared x hx hreported]
    exact marked x hx hreported
  | some found =>
    obtain ⟨p, d⟩ := found
    obtain ⟨a, x, b, rfl, rfl, -, hne, hlt, -, -, hscanned⟩ := scanThreads_found hfound
    simp only [List.map_append, List.map_cons] at nodup
    obtain ⟨-, hnodup, hdisjoint⟩ := List.nodup_append.mp nodup
    have other : ∀ y ∈ a ++ b, y.syncPtr ≠ x.syncPtr := by
      intro y hy hptr
      obtain hy | hy := List.mem_append.mp hy
      · exact hdisjoint _ (List.mem_map_of_mem hy) _ List.mem_cons_self hptr
      · exact (List.nodup_cons.mp hnodup).1 (hptr ▸ List.mem_map_of_mem hy)
    have kept : ∀ y ∈ a ++ b, reported y.syncPtr = true ∨
        (some (x.syncPtr, d)).map Prod.fst = some y.syncPtr → reported y.syncPtr = true := by
      rintro y hy (hreported | hptr)
      · exact hreported
      · exact absurd (Option.some.inj hptr).symm (other y hy)
    have old : ∀ y ∈ a ++ b, y ∈ a ++ x :: b := by grind
    rw [hscanned]
    intro o ho hreported
    obtain ho | ho := List.mem_append.mp ho
    · obtain ⟨y, hy, rfl⟩ := List.mem_map.mp ho
      have hy := List.mem_append_left b hy
      rw [syncPtr_clearIdle] at hreported
      have hreported := kept y hy hreported
      rw [cleared y (old y hy) hreported]
      exact marked y (old y hy) hreported
    · obtain rfl | ho := List.mem_cons.mp ho
      · exact ⟨rfl, hne, hlt⟩
      · have ho := List.mem_append_right a ho
        exact marked o (old o ho) (kept o ho hreported)

/-- The threads that a scan goes past before it reports one. -/
def passed (found : Option SyncPtr) (threads : List ThreadInfo) : List ThreadInfo :=
  threads.takeWhile fun o => decide (found ≠ some o.syncPtr)

theorem alreadyLogged_clearIdle (starts : SyncPtr → Nat) (now : Nat) (o : ThreadInfo) :
    (clearIdle starts now o).alreadyLogged = true ↔
      o.alreadyLogged = true ∧ ¬ (starts o.syncPtr = 0 ∨ now ≤ starts o.syncPtr) := by
  unfold clearIdle
  split_ifs with hidle <;> simp [hidle]

/-- A scan marks the thread that it reports, and clears the marks of those that it finds idle on
its way. -/
theorem scanThreads_alreadyLogged {found : Option SyncPtr}
    (nodup : (threads.map ThreadInfo.syncPtr).Nodup)
    (hfound : (scanThreads starts maxDurationSec now threads).2.map Prod.fst = found) :
    ∀ o ∈ (scanThreads starts maxDurationSec now threads).1, ∃ x ∈ threads,
      x.syncPtr = o.syncPtr ∧ (o.alreadyLogged = true ↔ found = some o.syncPtr ∨
        x.alreadyLogged = true ∧ ¬ (o.syncPtr ∈ (passed found threads).map ThreadInfo.syncPtr ∧
          (starts o.syncPtr = 0 ∨ now ≤ starts o.syncPtr))) := by
  subst hfound
  cases hfound : (scanThreads starts maxDurationSec now threads).2 with
  | none =>
    have hpassed : passed none threads = threads := by simp [passed]
    rw [(scanThreads_none hfound).1, Option.map_none, hpassed]
    intro o ho
    obtain ⟨x, hx, rfl⟩ := List.mem_map.mp ho
    refine ⟨x, hx, (syncPtr_clearIdle ..).symm, ?_⟩
    have hmem : x.syncPtr ∈ threads.map ThreadInfo.syncPtr := List.mem_map_of_mem hx
    rw [alreadyLogged_clearIdle, syncPtr_clearIdle]
    simp [hmem]
  | some found =>
    obtain ⟨p, d⟩ := found
    obtain ⟨a, x, b, rfl, rfl, -, -, -, -, -, hscanned⟩ := scanThreads_found hfound
    rw [List.map_append, List.map_cons] at nodup
    obtain ⟨-, hnodup, hdisjoint⟩ := List.nodup_append.mp nodup
    have before : ∀ y ∈ a, y.syncPtr ≠ x.syncPtr := fun y hy =>
      hdisjoint _ (List.mem_map_of_mem hy) _ List.mem_cons_self
    have behind : ∀ y ∈ b, y.syncPtr ≠ x.syncPtr := fun y hy hptr =>
      (List.nodup_cons.mp hnodup).1 (hptr ▸ List.mem_map_of_mem hy)
    have hpassed : passed (some x.syncPtr) (a ++ x :: b) = a := by
      unfold passed
      rw [List.takeWhile_append_of_pos, List.takeWhile_cons_of_neg, List.append_nil]
      · simp
      · intro y hy
        simpa using (before y hy).symm
    rw [hscanned, Option.map_some, hpassed]
    intro o ho
    obtain ho | ho := List.mem_append.mp ho
    · obtain ⟨y, hy, rfl⟩ := List.mem_map.mp ho
      have hmem : y.syncPtr ∈ a.map ThreadInfo.syncPtr := List.mem_map_of_mem hy
      refine ⟨y, List.mem_append_left _ hy, (syncPtr_clearIdle ..).symm, ?_⟩
      rw [alreadyLogged_clearIdle, syncPtr_clearIdle]
      simp [hmem, (before y hy).symm]
    · obtain rfl | ho := List.mem_cons.mp ho
      · exact ⟨x, by simp, rfl, by simp⟩
      · refine ⟨o, by simp [ho], rfl, ?_⟩
        have hnot : o.syncPtr ∉ a.map ThreadInfo.syncPtr := by
          intro hmem
          exact hdisjoint _ hmem _ (List.mem_cons_of_mem _ (List.mem_map_of_mem ho)) rfl
        simp [hnot, (behind o ho).symm]

end ThreadWatchdog
end CppGuard
