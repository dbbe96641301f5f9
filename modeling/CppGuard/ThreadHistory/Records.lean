import CppGuard.ThreadHistory
import Mathlib.Data.List.Forall2

/-!
# Histories as counted lists

The history of a thread refines a counted list of locks, whatever a lock is identified by:
an address while nothing is deleted, or an incarnation of an address. `names id k` says that
`id` is the graph id of the lock `k`; the operations of `thread_history_helper` are those
of the counted list as long as ids and locks correspond one to one.
-/
namespace CppGuard
open CountedList ThreadHistory

theorem forall₂_mem_left {α β : Type*} {R : α → β → Prop} {l : List α} {m : List β}
    (h : List.Forall₂ R l m) {a : α} (ha : a ∈ l) : ∃ b ∈ m, R a b := by
  induction h with
  | nil => cases ha
  | @cons x y l m hxy _ ih =>
    obtain rfl | ha := List.mem_cons.mp ha
    · exact ⟨y, List.mem_cons_self, hxy⟩
    · obtain ⟨b, hb, hab⟩ := ih ha
      exact ⟨b, List.mem_cons_of_mem y hb, hab⟩

theorem forall₂_mem_right {α β : Type*} {R : α → β → Prop} {l : List α} {m : List β}
    (h : List.Forall₂ R l m) {b : β} (hb : b ∈ m) : ∃ a ∈ l, R a b :=
  forall₂_mem_left h.flip hb

theorem forall₂_split {α β : Type*} {R : α → β → Prop} {l : List α} {m m' : List β} {b : β}
    (h : List.Forall₂ R l (m ++ b :: m')) : ∃ k a k', l = k ++ a :: k' ∧ List.Forall₂ R k m ∧
      R a b ∧ List.Forall₂ R k' m' := by
  induction m generalizing l with
  | nil =>
    obtain ⟨a, k', hab, hk', rfl⟩ := List.forall₂_cons_right_iff.mp h
    exact ⟨[], a, k', rfl, .nil, hab, hk'⟩
  | cons c m ih =>
    obtain ⟨d, l, hdc, hl, rfl⟩ := List.forall₂_cons_right_iff.mp h
    obtain ⟨k, a, k', rfl, hk, hab, hk'⟩ := ih hl
    exact ⟨d :: k, a, k', rfl, .cons hdc hk, hab, hk'⟩

theorem forall₂_closeGap {α β : Type*} {R : α → β → Prop} {l : List α} {m : List β}
    (h : List.Forall₂ R l m) : List.Forall₂ R (closeGap l) (closeGap m) := by
  obtain rfl | ⟨m, z, rfl⟩ := List.eq_nil_or_concat' m
  · rw [List.forall₂_nil_right_iff.mp h]
    exact .nil
  · obtain ⟨k, a, k', rfl, hk, ha, hk'⟩ := forall₂_split h
    obtain rfl := List.forall₂_nil_right_iff.mp hk'
    rw [closeGap_concat, closeGap_concat]
    exact .cons ha hk

variable {κ : Type*} [DecidableEq κ] {names names' : GraphId → κ → Prop} {addr : κ → Addr}
  {held held' : SynchLocksHeld} {es : List (κ × Nat)}

def Records (names : GraphId → κ → Prop) (addr : κ → Addr) (held : SynchLocksHeld)
    (es : List (κ × Nat)) : Prop :=
  List.Forall₂ (fun l e => l.mu = some (addr e.1) ∧ l.count = e.2 ∧ names l.id e.1) held.entries es

namespace Records

omit [DecidableEq κ] in
theorem mono (h : Records names addr held es) (hnames : ∀ id k, names id k → names' id k) :
    Records names' addr held es :=
  h.imp fun _ _ hl => ⟨hl.1, hl.2.1, hnames _ _ hl.2.2⟩

omit [DecidableEq κ] in
theorem imp_of_mem (h : Records names addr held es)
    (hnames : ∀ id k, k ∈ keys es → names id k → names' id k) : Records names' addr held es := by
  unfold Records at h ⊢
  generalize held.entries = ls at h ⊢
  induction h with
  | nil => exact .nil
  | @cons l e ls es hl _ ih =>
    refine .cons ⟨hl.1, hl.2.1, hnames _ _ (by simp) hl.2.2⟩ (ih fun id k hk => ?_)
    exact hnames id k (by simp [hk])

omit [DecidableEq κ] in
theorem of_entries_eq (h : Records names addr held es) (heq : held'.entries = held.entries) :
    Records names addr held' es := by
  unfold Records
  rwa [heq]

section Operations

variable {maxLocks : Nat} (hv : held.Valid maxLocks) (h : Records names addr held es)
  (left : Relator.LeftUnique names) (right : Relator.RightUnique names) {id : GraphId} {k : κ}
  (hid : names id k)
include h hid

omit [DecidableEq κ] in
include right in
theorem absent (hk : k ∉ keys es) : ∀ l ∈ held.entries, l.id ≠ id := by
  rintro l hl rfl
  obtain ⟨e, he, -, -, hname⟩ := forall₂_mem_left h hl
  have hkey : e.1 = k := right hname hid
  exact hk (hkey ▸ mem_keys.mpr ⟨e.2, he⟩)

include hv left right

theorem inLock : Records names addr (updateLockHistoryInLock (addr k) id held)
    (acquire maxLocks k es) := by
  by_cases hk : k ∈ keys es
  · obtain ⟨a, n, b, rfl, ha⟩ := exists_split hk
    obtain ⟨la, l, lb, hentries, hla, ⟨hmu, hcount, hname⟩, hlb⟩ := forall₂_split h
    rw [acquire_split maxLocks ha, inLock_present hv hentries (left hname hid)]
    unfold Records
    rw [SynchLocksHeld.entries_withEntries]
    exact List.rel_append hla (.cons ⟨hmu, by simp [hcount], hname⟩ hlb)
  · have hlen : held.entries.length = es.length := h.length_eq
    rw [acquire_absent maxLocks hk, inLock_absent hv (h.absent right hid hk), hlen]
    split_ifs
    · exact h
    · unfold Records
      rw [SynchLocksHeld.entries_withEntries]
      exact List.rel_append h (.cons ⟨rfl, rfl, hid⟩ .nil)

omit right in
theorem afterLock (thread : ThreadId) (hk : k ∈ keys es) :
    ∃ held', updateLockHistoryAfterLock thread (addr k) id held = .ok held' ∧
      Records names addr held' (release k es) := by
  obtain ⟨a, n, b, rfl, ha⟩ := exists_split hk
  obtain ⟨la, l, lb, hentries, hla, ⟨hmu, hcount, hname⟩, hlb⟩ := forall₂_split h
  have hid' := left hname hid
  have hpos := hv.count_pos l (by simp [hentries])
  rw [release_split ha]
  by_cases hone : n = 1
  · refine ⟨_, afterLock_remove hv hentries hid' (by simp [hcount, hone]), ?_⟩
    unfold Records
    rw [if_pos hone, SynchLocksHeld.entries_withEntries]
    exact List.rel_append hla (forall₂_closeGap hlb)
  · have hone' : l.count ≠ 1 := by
      rw [hcount]
      exact_mod_cast hone
    refine ⟨_, afterLock_decrement hv hentries hid' hone', ?_⟩
    unfold Records
    rw [if_neg hone, SynchLocksHeld.entries_withEntries]
    exact List.rel_append hla (.cons ⟨hmu, by simp only at hcount ⊢; omega, hname⟩ hlb)

omit [DecidableEq κ] hv left in
theorem afterLock_error (thread : ThreadId) (hk : k ∉ keys es) :
    ∃ report, updateLockHistoryAfterLock thread (addr k) id held = .error report :=
  ⟨_, afterLock_absent (h.absent right hid hk)⟩

/-- A release that succeeds. -/
theorem of_afterLock {thread : ThreadId}
    (hafter : updateLockHistoryAfterLock thread (addr k) id held = .ok held') :
    k ∈ keys es ∧ Records names addr held' (release k es) := by
  have hk : k ∈ keys es := by
    by_contra hk
    obtain ⟨report, herror⟩ := h.afterLock_error right hid thread hk
    cases herror.symm.trans hafter
  obtain ⟨held'', hok, hrecords⟩ := h.afterLock hv left hid thread hk
  obtain rfl := Except.ok.inj (hok.symm.trans hafter)
  exact ⟨hk, hrecords⟩

omit right in
/-- A release that reports an error. -/
theorem notMem_of_afterLock {thread : ThreadId} {report : Report}
    (hafter : updateLockHistoryAfterLock thread (addr k) id held = .error report) :
    k ∉ keys es := by
  intro hk
  obtain ⟨held'', hok, -⟩ := h.afterLock hv left hid thread hk
  cases hok.symm.trans hafter

end Operations
end Records
end CppGuard
