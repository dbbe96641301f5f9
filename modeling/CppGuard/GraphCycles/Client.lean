import CppGuard.DeadlockMonitor.Detection
import CppGuard.GraphCycles.Capacity
import CppGuard.GraphCycles.Reachability
import CppGuard.Library.AcyclicGraph

/-!
# What a client sees of the graph

A client of `GraphCycles` gets ids from `GetId`, and passes on any of them, also an old one, to the
other functions. What these return is what an `AcyclicGraph` of incarnations tells: ranks, versions,
slots, hash chains and searches cannot be observed.
-/
namespace CppGuard
open Relation Transition

/-- A call of `GraphCycles`. An id is given by the number of the `GetId` call that returned it. -/
inductive Call where
  | getId (thread : ThreadId) (ptr : Addr)
  | removeNode (ptr : Addr)
  | insertEdge (x y : Nat)
  | removeEdge (x y : Nat)
  | updateStackTrace (x : Nat) (thread : ThreadId) (allLocks : SynchLocksHeld)
  | hasNode (x : Nat)
  | hasEdge (x y : Nat)
  | isReachable (x y : Nat)
  | ptr (x : Nat)
  /-- Compare two ids. -/
  | sameId (x y : Nat)

inductive Answer where
  | done
  | bool (b : Bool)
  | ptr (p : Option Addr)
  deriving DecidableEq, Repr

namespace Call

/-- The calls that register and remove pointers, as operations. -/
def registration : Call → Option Rep.Op
  | .getId thread p => some (.getId thread p)
  | .removeNode p => some (.removeNode p)
  | _ => none

end Call

/-- A graph and the ids that its client has got. -/
structure Client where
  graph : Rep := {}
  ids : List GraphId := []
  answers : List Answer := []

namespace Client

/-- An id that the client has not got yet is the initial value 0. -/
def id (c : Client) (x : Nat) : GraphId := c.ids.getD x invalidGraphId

def answer (c : Client) (a : Answer) : Client := { c with answers := c.answers ++ [a] }

def step (maxLocks : Nat) (c : Client) : Call → Option Client
  | .getId thread ptr => do
    let (id, graph) ← c.graph.getId maxLocks thread ptr
    return { c with graph, ids := c.ids ++ [id] }.answer .done
  | .removeNode ptr => do
    let graph ← c.graph.removeNode ptr
    return { c with graph }.answer .done
  | .insertEdge x y => do
    let (ok, graph) ← c.graph.insertEdge (c.id x) (c.id y)
    return { c with graph }.answer (.bool ok)
  | .removeEdge x y => some ({ c with graph := c.graph.removeEdge (c.id x) (c.id y) }.answer .done)
  | .updateStackTrace x thread allLocks =>
    some ({ c with graph := c.graph.updateStackTrace (c.id x) thread allLocks }.answer .done)
  | .hasNode x => some (c.answer (.bool (c.graph.hasNode (c.id x))))
  | .hasEdge x y => some (c.answer (.bool (c.graph.hasEdge (c.id x) (c.id y))))
  | .isReachable x y => do
    let reachable ← c.graph.isReachable (c.id x) (c.id y)
    return c.answer (.bool reachable)
  | .ptr x => some (c.answer (.ptr (c.graph.ptr (c.id x))))
  | .sameId x y => some (c.answer (.bool (c.ids[x]? = c.ids[y]?)))

/-- The same with the limits of the vectors. -/
def Bounded.step (maxLocks : Nat) (c : Client) : Call → Option Client
  | .insertEdge x y => do
    let (ok, graph) ← Rep.Bounded.insertEdge c.graph (c.id x) (c.id y)
    return { c with graph }.answer (.bool ok)
  | .isReachable x y => do
    let reachable ← Rep.Bounded.isReachable c.graph (c.id x) (c.id y)
    return c.answer (.bool reachable)
  | call => c.step maxLocks call

end Client

/-! ## The graph of the locks -/

/-- A graph of incarnations, and those that the client has asked for. -/
structure LockGraph where
  graph : AcyclicGraph Incarnation := .empty
  /-- The number of removals at an address. -/
  generation : Addr → Nat := fun _ => 0
  handles : List Incarnation := []
  answers : List Answer := []

namespace LockGraph
open Classical

def current (s : LockGraph) (p : Addr) : Incarnation := ⟨p, s.generation p⟩

/-- What is called `x` is in the graph. -/
def Alive (s : LockGraph) (x : Nat) : Prop := ∃ h, s.handles[x]? = some h ∧ h ∈ s.graph.nodes

/-- What is called `x` and what is called `y` are related. -/
def Both (s : LockGraph) (R : Incarnation → Incarnation → Prop) (x y : Nat) : Prop :=
  ∃ h m, s.handles[x]? = some h ∧ s.handles[y]? = some m ∧ R h m

def answer (s : LockGraph) (a : Answer) : LockGraph := { s with answers := s.answers ++ [a] }

/-- Change the graph if `x` and `y` are known. -/
def edit (s : LockGraph) (x y : Nat)
    (f : AcyclicGraph Incarnation → Incarnation → Incarnation → AcyclicGraph Incarnation) :
    LockGraph :=
  match s.handles[x]?, s.handles[y]? with
  | some h, some m => { s with graph := f s.graph h m }
  | _, _ => s

noncomputable def step (s : LockGraph) : Call → LockGraph
  | .getId _ p =>
    { s with graph := s.graph.addNode (s.current p), handles := s.handles ++ [s.current p] }.answer
      .done
  | .removeNode p =>
    { s with
      graph := s.graph.removeNode (s.current p)
      generation := Function.update s.generation p (s.generation p + 1) }.answer .done
  | .insertEdge x y =>
    (s.edit x y AcyclicGraph.addArc).answer (.bool (¬ s.Both s.graph.Reaches y x))
  | .removeEdge x y => (s.edit x y AcyclicGraph.removeArc).answer .done
  | .updateStackTrace _ _ _ => s.answer .done
  | .hasNode x => s.answer (.bool (s.Alive x))
  | .hasEdge x y => s.answer (.bool (s.Both s.graph.Arc x y))
  | .isReachable x y => s.answer (.bool (s.Both s.graph.Reaches x y))
  | .ptr x => s.answer (.ptr (if s.Alive x then s.handles[x]?.map Incarnation.addr else none))
  | .sameId x y => s.answer (.bool (s.handles[x]? = s.handles[y]?))

noncomputable def run (calls : List Call) : LockGraph := calls.foldl step {}

end LockGraph

/-! ## `RemoveEdge` -/

namespace Rep

/-- `RemoveEdge` takes the arc between live ids away. -/
theorem Clean.removeEdge_arc {r : Rep} (hr : r.Clean) {a b : GraphId} {p q : Addr}
    (ha : r.Live a p) (hb : r.Live b q) :
    SameIds r (r.removeEdge a b) ∧
      ∀ x y, (r.removeEdge a b).Arc x y ↔ r.Arc x y ∧ ¬ (x = a ∧ y = b) := by
  obtain ⟨hinv, hsame⟩ := removeEdge_inv hr.toInv a b
  have hindex := hsame.sameIndex
  have hlt := lt_size_of_maskedPtr (ha.at_index hr.toIndexed).1
  have hedge : ∀ u v, (r.removeEdge a b).Edge u v ↔
      r.Edge u v ∧ ¬ (u = nodeIndex a ∧ v = nodeIndex b) := by
    intro u v
    rw [removeEdge, ha.findNode hr.toIndexed, hb.findNode hr.toIndexed]
    simp only [Edge]
    rw [modify_field Node.outSet (by exact fun _ => rfl), node_modify _ hlt]
    split_ifs with hu
    · simp [hu, and_comm]
    · simp [hu]
  refine ⟨⟨⟨hinv, fun u v huv => ?_⟩, hindex.live, hindex.retired⟩, fun x y => ?_⟩
  · simp only [hindex.maskedPtr]
    exact hr.registered u v ((hedge u v).mp huv).1
  · simp only [Arc, hindex.live, hedge]
    constructor
    · rintro ⟨hx, hy, hxy, hne⟩
      refine ⟨⟨hx, hy, hxy⟩, ?_⟩
      rintro ⟨rfl, rfl⟩
      exact hne ⟨rfl, rfl⟩
    · rintro ⟨⟨⟨p', hx⟩, ⟨q', hy⟩, hxy⟩, hne⟩
      refine ⟨⟨p', hx⟩, ⟨q', hy⟩, hxy, ?_⟩
      rintro ⟨hxa, hyb⟩
      refine hne ⟨?_, ?_⟩
      · rw [(hx.at_index hr.toIndexed).2, hxa, ← (ha.at_index hr.toIndexed).2]
      · rw [(hy.at_index hr.toIndexed).2, hyb, ← (hb.at_index hr.toIndexed).2]

theorem removeEdge_expired {r : Rep} {a b : GraphId}
    (h : r.findNode a = none ∨ r.findNode b = none) : r.removeEdge a b = r := by
  rw [removeEdge]
  obtain h | h := h
  · rw [h]
  · rw [h]
    cases r.findNode a <;> rfl

end Rep

/-! ## The graph and what it stands for -/

/-- The graph of the client stands for `s`; `names` tells which lock an id names. -/
structure Stands (names : GraphId → Incarnation → Prop) (c : Client) (s : LockGraph) : Prop where
  clean : c.graph.Clean
  named : Names c.graph s.generation names
  node : ∀ h, h ∈ s.graph.nodes ↔
    h.generation = s.generation h.addr ∧ ∃ id, c.graph.Live id h.addr
  arc : ∀ h m, s.graph.Arc h m ↔ Recorded c.graph names h m
  ids : List.Forall₂ names c.ids s.handles
  answers : c.answers = s.answers
  /-- No slot is at its largest version. -/
  expired : ∀ id, c.graph.Retired id → c.graph.findNode id = none

namespace Stands
open CppGuard.Rep

variable {names : GraphId → Incarnation → Prop} {c : Client} {s : LockGraph}
  (hs : Stands names c s)
include hs

theorem live_of_node {id : GraphId} {h : Incarnation} (hname : names id h)
    (hmem : h ∈ s.graph.nodes) : c.graph.Live id h.addr := by
  obtain ⟨hgen, -⟩ := (hs.node h).mp hmem
  obtain ⟨hlive, -⟩ | ⟨-, hlt⟩ := hs.named.status id h hname
  · exact hlive
  · omega

theorem node_of_live {id : GraphId} {h : Incarnation} {p : Addr} (hname : names id h)
    (hlive : c.graph.Live id p) : h ∈ s.graph.nodes := by
  obtain rfl := hs.named.eq_of_live hlive hname
  exact (hs.node _).mpr ⟨rfl, id, hlive⟩

/-- An id of the client is that of a lock in the graph, or does not find a node. -/
theorem lookup (x : Nat) :
    (∃ h, s.handles[x]? = some h ∧ names (c.id x) h ∧ h ∈ s.graph.nodes ∧
      c.graph.Live (c.id x) h.addr) ∨
    (c.graph.findNode (c.id x) = none ∧ ¬ s.Alive x) := by
  cases hid : c.ids[x]? with
  | none =>
    have hnone : s.handles[x]? = none := by
      rw [List.getElem?_eq_none_iff] at hid ⊢
      exact hs.ids.length_eq ▸ hid
    have hdead : ¬ s.Alive x := by
      rintro ⟨h, hh, -⟩
      cases hnone.symm.trans hh
    refine Or.inr ⟨?_, hdead⟩
    rw [Client.id, List.getD_eq_getElem?_getD, hid, Option.getD_none, findNode, if_neg]
    rintro ⟨hlt, hversion⟩
    exact (hs.clean.version_pos _ hlt).ne' hversion
  | some id =>
    obtain ⟨h, hh, hname⟩ := Refines.forall₂_getElem? hs.ids hid
    have hid' : c.id x = id := by rw [Client.id, List.getD_eq_getElem?_getD, hid, Option.getD_some]
    rw [hid']
    by_cases hmem : h ∈ s.graph.nodes
    · exact Or.inl ⟨h, hh, hname, hmem, hs.live_of_node hname hmem⟩
    · have hdead : ¬ s.Alive x := by
        rintro ⟨m, hm, hmem'⟩
        exact hmem (Option.some.inj (hh.symm.trans hm) ▸ hmem')
      refine Or.inr ⟨?_, hdead⟩
      obtain ⟨hlive, -⟩ | ⟨hretired, -⟩ := hs.named.status id h hname
      · exact absurd (hs.node_of_live hname hlive) hmem
      · exact hs.expired id hretired

theorem lookup_both (x y : Nat) :
    (∃ h m, (s.handles[x]? = some h ∧ s.handles[y]? = some m) ∧
      (names (c.id x) h ∧ names (c.id y) m) ∧ (h ∈ s.graph.nodes ∧ m ∈ s.graph.nodes) ∧
      c.graph.Live (c.id x) h.addr ∧ c.graph.Live (c.id y) m.addr) ∨
    ((c.graph.findNode (c.id x) = none ∨ c.graph.findNode (c.id y) = none) ∧
      ∀ h m, s.handles[x]? = some h → s.handles[y]? = some m →
        ¬ (h ∈ s.graph.nodes ∧ m ∈ s.graph.nodes)) := by
  obtain ⟨h, hh, hname, hmem, hlive⟩ | ⟨hnone, hdead⟩ := hs.lookup x
  · obtain ⟨m, hm, hname', hmem', hlive'⟩ | ⟨hnone, hdead⟩ := hs.lookup y
    · exact Or.inl ⟨h, m, ⟨hh, hm⟩, ⟨hname, hname'⟩, ⟨hmem, hmem'⟩, hlive, hlive'⟩
    · exact Or.inr ⟨Or.inr hnone, fun h m _ hm hmem => hdead ⟨m, hm, hmem.2⟩⟩
  · exact Or.inr ⟨Or.inl hnone, fun h m hh _ hmem => hdead ⟨h, hh, hmem.1⟩⟩

omit hs in
theorem both_iff {R : Incarnation → Incarnation → Prop} {x y : Nat} {h m : Incarnation}
    (hh : s.handles[x]? = some h) (hm : s.handles[y]? = some m) : s.Both R x y ↔ R h m := by
  constructor
  · rintro ⟨h', m', hh', hm', hR⟩
    obtain rfl := Option.some.inj (hh.symm.trans hh')
    obtain rfl := Option.some.inj (hm.symm.trans hm')
    exact hR
  · exact fun hR => ⟨h, m, hh, hm, hR⟩

section Live

variable {a b : GraphId} {h m : Incarnation} (ha : names a h) (hb : names b m)
include ha hb

theorem arc_iff : s.graph.Arc h m ↔ c.graph.Arc a b := by
  rw [hs.arc]
  constructor
  · rintro ⟨a', b', ha', hb', harc⟩
    obtain rfl := hs.named.left ha ha'
    obtain rfl := hs.named.left hb hb'
    exact harc
  · exact fun harc => ⟨a, b, ha, hb, harc⟩

theorem path_iff : ReflTransGen s.graph.Arc h m ↔ ReflTransGen c.graph.Arc a b := by
  constructor
  · intro hpath
    induction hpath generalizing b with
    | refl => rw [hs.named.left ha hb]
    | @tail k m _ hkm ih =>
      obtain ⟨x, y, hx, hy, harc⟩ := (hs.arc k m).mp hkm
      obtain rfl := hs.named.left hb hy
      exact (ih hx).tail harc
  · intro hpath
    obtain ⟨k, hk, hrec⟩ := recorded_path hs.named.total ha hpath
    obtain rfl := hs.named.right hb hk
    exact ReflTransGen.mono (fun k l => (hs.arc k l).mpr) _ _ hrec

end Live

/-! ## Answers -/

theorem hasNode_iff (x : Nat) : c.graph.hasNode (c.id x) = true ↔ s.Alive x := by
  obtain ⟨h, hh, -, hmem, hlive⟩ | ⟨hnone, hdead⟩ := hs.lookup x
  · refine iff_of_true ?_ ⟨h, hh, hmem⟩
    rw [hasNode, hlive.findNode hs.clean.toIndexed]
    rfl
  · refine iff_of_false ?_ hdead
    rw [hasNode, hnone]
    simp

theorem hasEdge_iff (x y : Nat) :
    c.graph.hasEdge (c.id x) (c.id y) = true ↔ s.Both s.graph.Arc x y := by
  obtain ⟨h, m, ⟨hh, hm⟩, ⟨hx, hy⟩, -, hlive, hlive'⟩ | ⟨hnone, hdead⟩ := hs.lookup_both x y
  · rw [both_iff hh hm, hs.arc_iff hx hy, hasEdge, hlive.findNode hs.clean.toIndexed,
      hlive'.findNode hs.clean.toIndexed]
    simp only [ValidNodeSet.contains_eq, decide_eq_true_eq]
    exact ⟨fun hedge => ⟨⟨_, hlive⟩, ⟨_, hlive'⟩, hedge⟩, fun harc => harc.2.2⟩
  · have hno : ¬ s.Both s.graph.Arc x y := by
      rintro ⟨h, m, hh, hm, harc⟩
      exact hdead h m hh hm (s.graph.mem_of_arc harc)
    refine iff_of_false ?_ hno
    rw [hasEdge]
    obtain hnone | hnone := hnone
    · simp [hnone]
    · cases c.graph.findNode (c.id x) <;> simp [hnone]

theorem isReachable_iff (x y : Nat) : ∃ reachable,
    c.graph.isReachable (c.id x) (c.id y) = some reachable ∧
      (reachable = true ↔ s.Both s.graph.Reaches x y) := by
  obtain ⟨h, m, ⟨hh, hm⟩, ⟨hx, hy⟩, ⟨hmem, hmem'⟩, hlive, hlive'⟩ | ⟨hnone, hdead⟩ :=
    hs.lookup_both x y
  · obtain ⟨len, path, hfind, hresult⟩ := findPath_returns hs.clean.toOrdered
      (hlive.findNode hs.clean.toIndexed) (hlive'.findNode hs.clean.toIndexed)
      (Nat.zero_le ([] : List GraphId).length)
    refine ⟨decide (0 < len), by simp [isReachable, hfind], ?_⟩
    rw [both_iff hh hm, AcyclicGraph.Reaches, hs.path_iff hx hy, ← hs.clean.path_iff hlive hlive',
      decide_eq_true_iff]
    obtain ⟨rfl, hno⟩ | ⟨nodes, hpath, rfl, -⟩ := hresult.found
    · exact iff_of_false (lt_irrefl 0) fun hreach => hno hreach.2.2
    · obtain ⟨tail, rfl⟩ := List.head?_eq_some_iff.mp hpath.head
      refine iff_of_true (Nat.succ_pos _) ⟨hmem, hmem', ?_⟩
      exact List.relationReflTransGen_of_exists_isChain_cons tail hpath.chain
        (by simpa [List.getLast?_eq_some_getLast] using hpath.last)
  · have hno : ¬ s.Both s.graph.Reaches x y := by
      rintro ⟨h, m, hh, hm, hreach⟩
      exact hdead h m hh hm ⟨hreach.1, hreach.2.1⟩
    exact ⟨false, by simp [isReachable, findPath_expired hnone], iff_of_false (by simp) hno⟩

theorem sameId_iff (x y : Nat) : c.ids[x]? = c.ids[y]? ↔ s.handles[x]? = s.handles[y]? := by
  have hnone (z : Nat) : c.ids[z]? = none ↔ s.handles[z]? = none := by
    rw [List.getElem?_eq_none_iff, List.getElem?_eq_none_iff, hs.ids.length_eq]
  cases hx : c.ids[x]? with
  | none => rw [(hnone x).mp hx, eq_comm, hnone, eq_comm]
  | some a =>
    obtain ⟨h, hh, hname⟩ := Refines.forall₂_getElem? hs.ids hx
    rw [hh]
    cases hy : c.ids[y]? with
    | none => simp [(hnone y).mp hy]
    | some b =>
      obtain ⟨m, hm, hname'⟩ := Refines.forall₂_getElem? hs.ids hy
      rw [hm, Option.some.injEq, Option.some.injEq]
      constructor
      · rintro rfl
        exact hs.named.right hname hname'
      · rintro rfl
        exact hs.named.left hname hname'

/-! ## Changes -/

theorem answer (a : Answer) : Stands names (c.answer a) (s.answer a) :=
  ⟨hs.clean, hs.named, hs.node, hs.arc, hs.ids,
    by simp [Client.answer, LockGraph.answer, hs.answers],
    hs.expired⟩

theorem getId {maxLocks : Nat} {thread : ThreadId} {p : Addr} {id : GraphId} {g : Rep}
    (h : c.graph.getId maxLocks thread p = some (id, g))
    (expired : ∀ a, g.Retired a → g.findNode a = none) :
    Stands (withName names id (s.current p)) { c with graph := g, ids := c.ids ++ [id] }
      { s with graph := s.graph.addNode (s.current p), handles := s.handles ++ [s.current p] } := by
  have hgot := hs.clean.getId_arc h
  have hnamed := hs.named.register hgot.clean hgot.self hgot.live hgot.retired
  refine ⟨hgot.clean, hnamed, fun m => ?_, fun m k => ?_, ?_, hs.answers, expired⟩
  · simp only [AcyclicGraph.addNode, Set.mem_insert_iff, hs.node, hgot.live]
    constructor
    · rintro (rfl | ⟨hgen, a, ha⟩)
      · exact ⟨rfl, id, Or.inr ⟨rfl, rfl⟩⟩
      · exact ⟨hgen, a, Or.inl ha⟩
    · rintro ⟨hgen, a, ha | ⟨-, haddr⟩⟩
      · exact Or.inr ⟨hgen, a, ha⟩
      · subst haddr
        exact Or.inl (by rw [LockGraph.current, ← hgen])
  · have hold := recorded_iff (h := m) (m := k) hs.named.total hnamed.right fun _ _ => Or.inl
    refine (hs.arc m k).trans (hold.symm.trans ?_)
    exact exists_congr fun x => exists_congr fun y =>
      and_congr_right fun _ => and_congr_right fun _ => (hgot.arc x y).symm
  · exact List.rel_append (hs.ids.imp fun _ _ => Or.inl) (.cons (Or.inr ⟨rfl, rfl⟩) .nil)

theorem removeNode {p : Addr} {g : Rep} (h : c.graph.removeNode p = some g)
    (expired : ∀ a, g.Retired a → g.findNode a = none) :
    Stands names { c with graph := g }
      { s with
        graph := s.graph.removeNode (s.current p)
        generation := Function.update s.generation p (s.generation p + 1) } := by
  have hremoved := hs.clean.removed h
  have hcurrent : ∀ {x m}, names x m → (∃ q, c.graph.Live x q) →
      (m ≠ s.current p ↔ ¬ c.graph.Live x p) := by
    rintro x m hname ⟨q, hq⟩
    obtain rfl := hs.named.eq_of_live hq hname
    constructor
    · rintro hne hp
      obtain rfl := hq.addr_inj hs.clean.toIndexed hp
      exact hne rfl
    · intro hno heq
      obtain rfl : q = p := congrArg Incarnation.addr heq
      exact hno hq
  refine ⟨hremoved.clean, hs.named.remove hremoved, fun m => ?_, fun m k => ?_, hs.ids, hs.answers,
    expired⟩
  · simp only [AcyclicGraph.removeNode, Set.mem_sdiff, Set.mem_singleton_iff, hs.node,
      hremoved.live]
    constructor
    · rintro ⟨⟨hgen, a, ha⟩, hne⟩
      have haddr : m.addr ≠ p := by
        rintro rfl
        exact hne (by rw [LockGraph.current, ← hgen])
      exact ⟨by rw [Function.update_of_ne haddr, hgen], a, ha, haddr⟩
    · rintro ⟨hgen, a, ha, haddr⟩
      rw [Function.update_of_ne haddr] at hgen
      exact ⟨⟨hgen, a, ha⟩, fun heq => haddr (congrArg Incarnation.addr heq)⟩
  · simp only [AcyclicGraph.removeNode, hs.arc]
    constructor
    · rintro ⟨⟨x, y, hx, hy, harc⟩, hm, hk⟩
      exact ⟨x, y, hx, hy, (hremoved.arc x y).mpr
        ⟨harc, (hcurrent hx harc.1).mp hm, (hcurrent hy harc.2.1).mp hk⟩⟩
    · rintro ⟨x, y, hx, hy, harc⟩
      obtain ⟨harc, hnx, hny⟩ := (hremoved.arc x y).mp harc
      exact ⟨⟨x, y, hx, hy, harc⟩, (hcurrent hx harc.1).mpr hnx, (hcurrent hy harc.2.1).mpr hny⟩

/-- The graph has other arcs; what they are is known in terms of ids. -/
theorem rearranged {g : Rep} (hids : SameIds c.graph g) {G : AcyclicGraph Incarnation}
    (nodes : G.nodes = s.graph.nodes) (arc : ∀ h m, G.Arc h m ↔ Recorded g names h m)
    (expired : ∀ a, g.Retired a → g.findNode a = none) :
    Stands names { c with graph := g } { s with graph := G } := by
  refine ⟨hids.clean, ⟨hs.named.left, hs.named.right, fun x p hx => ?_, fun x h hx => ?_⟩,
    fun h => ?_, arc, hs.ids, hs.answers, expired⟩
  · exact hs.named.live x p ((hids.live x p).mp hx)
  · simp only [hids.live, hids.retired]
    exact hs.named.status x h hx
  · simp only [nodes, hids.live]
    exact hs.node h

omit hs in
theorem edit_eq {x y : Nat} {h m : Incarnation} (hh : s.handles[x]? = some h)
    (hm : s.handles[y]? = some m)
    (f : AcyclicGraph Incarnation → Incarnation → Incarnation → AcyclicGraph Incarnation) :
    s.edit x y f = { s with graph := f s.graph h m } := by
  simp only [LockGraph.edit, hh, hm]

omit hs in
/-- An edit that concerns an expired lock changes nothing. -/
theorem edit_expired {x y : Nat}
    {f : AcyclicGraph Incarnation → Incarnation → Incarnation → AcyclicGraph Incarnation}
    (hf : ∀ h m, ¬ (h ∈ s.graph.nodes ∧ m ∈ s.graph.nodes) → f s.graph h m = s.graph)
    (hdead : ∀ h m, s.handles[x]? = some h → s.handles[y]? = some m →
      ¬ (h ∈ s.graph.nodes ∧ m ∈ s.graph.nodes)) : s.edit x y f = s := by
  unfold LockGraph.edit
  split
  · rename_i h m hh hm
    rw [hf h m (hdead h m hh hm)]
  · rfl

theorem insertEdge {x y : Nat} {ok : Bool} {g : Rep}
    (h : c.graph.insertEdge (c.id x) (c.id y) = some (ok, g))
    (expired : ∀ a, g.Retired a → g.findNode a = none) :
    Stands names { c with graph := g } (s.edit x y AcyclicGraph.addArc) ∧
      (ok = true ↔ ¬ s.Both s.graph.Reaches y x) := by
  obtain ⟨l, m, ⟨hl, hm⟩, ⟨hx, hy⟩, ⟨hmem, hmem'⟩, hlive, hlive'⟩ | ⟨hnone, hdead⟩ :=
    hs.lookup_both x y
  · obtain ⟨ok', g', heq, hids, -, hadded, hrefused⟩ := hs.clean.insertEdge_arc hlive hlive'
    cases heq.symm.trans h
    have hreach : s.Both s.graph.Reaches y x ↔ ReflTransGen c.graph.Arc (c.id y) (c.id x) := by
      rw [both_iff hm hl, AcyclicGraph.Reaches, hs.path_iff hy hx]
      simp [hmem, hmem']
    rw [edit_eq hl hm, hreach]
    cases ok with
    | true =>
      obtain ⟨hno, harc⟩ := hadded rfl
      refine ⟨hs.rearranged hids rfl (fun k n => ?_) expired, iff_of_true rfl hno⟩
      have hadd : l ∈ s.graph.nodes ∧ m ∈ s.graph.nodes ∧ ¬ ReflTransGen s.graph.Arc m l :=
        ⟨hmem, hmem', fun hpath => hno ((hs.path_iff hy hx).mp hpath)⟩
      simp only [AcyclicGraph.addArc, hadd, hs.arc, true_and, not_false_eq_true, Recorded, harc]
      constructor
      · rintro (⟨a, b, ha, hb, hab⟩ | ⟨rfl, rfl⟩)
        · exact ⟨a, b, ha, hb, Or.inl hab⟩
        · exact ⟨_, _, hx, hy, Or.inr ⟨rfl, rfl⟩⟩
      · rintro ⟨a, b, ha, hb, hab | ⟨rfl, rfl⟩⟩
        · exact Or.inl ⟨a, b, ha, hb, hab⟩
        · exact Or.inr ⟨hs.named.right ha hx, hs.named.right hb hy⟩
    | false =>
      obtain ⟨hpath, harc⟩ := hrefused rfl
      refine ⟨hs.rearranged hids rfl (fun k n => ?_) expired,
        iff_of_false (by simp) (not_not_intro hpath)⟩
      have hadd : ¬ (l ∈ s.graph.nodes ∧ m ∈ s.graph.nodes ∧ ¬ ReflTransGen s.graph.Arc m l) :=
        fun hadd => hadd.2.2 ((hs.path_iff hy hx).mpr hpath)
      simp only [AcyclicGraph.addArc, hadd, hs.arc, false_and, or_false, Recorded, harc]
  · cases (insertEdge_expired hnone).symm.trans h
    rw [edit_expired (fun l m hno => ?_) hdead]
    · refine ⟨hs, iff_of_true rfl ?_⟩
      rintro ⟨m, l, hm, hl, hreach⟩
      exact hdead l m hl hm ⟨hreach.2.1, hreach.1⟩
    · ext
      · rfl
      · simp only [AcyclicGraph.addArc, or_iff_left_iff_imp]
        exact fun hadd => absurd ⟨hadd.1.1, hadd.1.2.1⟩ hno

theorem removeEdge (x y : Nat)
    (expired : ∀ a, (c.graph.removeEdge (c.id x) (c.id y)).Retired a →
      (c.graph.removeEdge (c.id x) (c.id y)).findNode a = none) :
    Stands names { c with graph := c.graph.removeEdge (c.id x) (c.id y) }
      (s.edit x y AcyclicGraph.removeArc) := by
  obtain ⟨l, m, ⟨hl, hm⟩, ⟨hx, hy⟩, -, hlive, hlive'⟩ | ⟨hnone, hdead⟩ := hs.lookup_both x y
  · obtain ⟨hids, harc⟩ := hs.clean.removeEdge_arc hlive hlive'
    rw [edit_eq hl hm]
    refine hs.rearranged hids rfl (fun k n => ?_) expired
    simp only [AcyclicGraph.removeArc, hs.arc, Recorded, harc]
    constructor
    · rintro ⟨⟨a, b, ha, hb, hab⟩, hne⟩
      refine ⟨a, b, ha, hb, hab, ?_⟩
      rintro ⟨rfl, rfl⟩
      exact hne ⟨hs.named.right ha hx, hs.named.right hb hy⟩
    · rintro ⟨a, b, ha, hb, hab, hne⟩
      refine ⟨⟨a, b, ha, hb, hab⟩, ?_⟩
      rintro ⟨rfl, rfl⟩
      exact hne ⟨hs.named.left ha hx, hs.named.left hb hy⟩
  · rw [removeEdge_expired hnone, edit_expired (fun l m hno => ?_) hdead]
    · exact hs
    · ext k n
      · rfl
      · simp only [AcyclicGraph.removeArc, and_iff_left_iff_imp]
        rintro hkn ⟨rfl, rfl⟩
        exact hno (s.graph.mem_of_arc hkn)

theorem updateStackTrace (x : Nat) (thread : ThreadId) (allLocks : SynchLocksHeld)
    (expired : ∀ a, (c.graph.updateStackTrace (c.id x) thread allLocks).Retired a →
      (c.graph.updateStackTrace (c.id x) thread allLocks).findNode a = none) :
    Stands names { c with graph := c.graph.updateStackTrace (c.id x) thread allLocks } s := by
  obtain ⟨hids, -, -, harc⟩ := hs.clean.updateStackTrace_arc (c.id x) thread allLocks
  refine hs.rearranged hids rfl (fun k n => ?_) expired
  simp only [hs.arc, Recorded, harc]

open Classical in
/-- Every call. -/
theorem step {maxLocks : Nat} {call : Call} {c' : Client} (h : c.step maxLocks call = some c')
    (expired : ∀ a, c'.graph.Retired a → c'.graph.findNode a = none) :
    ∃ names', Stands names' c' (s.step call) := by
  cases call with
  | getId thread p =>
    simp only [Client.step, Option.bind_eq_bind, Option.bind_eq_some_iff, Prod.exists] at h
    obtain ⟨id, g, hget, h⟩ := h
    obtain rfl := Option.some.inj h
    exact ⟨_, (hs.getId hget expired).answer .done⟩
  | removeNode p =>
    obtain ⟨g, hremove, h⟩ := Option.bind_eq_some_iff.mp h
    obtain rfl := Option.some.inj h
    exact ⟨_, (hs.removeNode hremove expired).answer .done⟩
  | insertEdge x y =>
    simp only [Client.step, Option.bind_eq_bind, Option.bind_eq_some_iff, Prod.exists] at h
    obtain ⟨ok, g, hinsert, h⟩ := h
    obtain rfl := Option.some.inj h
    obtain ⟨hs', hok⟩ := hs.insertEdge hinsert expired
    have hanswer : ok = decide (¬ s.Both s.graph.Reaches y x) := by
      rw [Bool.eq_iff_iff, hok, decide_eq_true_iff]
    refine ⟨names, ?_⟩
    rw [LockGraph.step, ← hanswer]
    exact hs'.answer (.bool ok)
  | removeEdge x y =>
    obtain rfl := Option.some.inj h
    exact ⟨_, (hs.removeEdge x y expired).answer .done⟩
  | updateStackTrace x thread allLocks =>
    obtain rfl := Option.some.inj h
    exact ⟨_, (hs.updateStackTrace x thread allLocks expired).answer .done⟩
  | hasNode x =>
    obtain rfl := Option.some.inj h
    have hanswer : c.graph.hasNode (c.id x) = decide (s.Alive x) := by
      rw [Bool.eq_iff_iff, hs.hasNode_iff, decide_eq_true_iff]
    refine ⟨names, ?_⟩
    rw [LockGraph.step, ← hanswer]
    exact hs.answer _
  | hasEdge x y =>
    obtain rfl := Option.some.inj h
    have hanswer : c.graph.hasEdge (c.id x) (c.id y) = decide (s.Both s.graph.Arc x y) := by
      rw [Bool.eq_iff_iff, hs.hasEdge_iff, decide_eq_true_iff]
    refine ⟨names, ?_⟩
    rw [LockGraph.step, ← hanswer]
    exact hs.answer _
  | isReachable x y =>
    obtain ⟨reachable, heq, hiff⟩ := hs.isReachable_iff x y
    obtain ⟨_, heq', h⟩ := Option.bind_eq_some_iff.mp h
    obtain rfl := Option.some.inj (heq.symm.trans heq')
    obtain rfl := Option.some.inj h
    have hanswer : reachable = decide (s.Both s.graph.Reaches x y) := by
      rw [Bool.eq_iff_iff, hiff, decide_eq_true_iff]
    refine ⟨names, ?_⟩
    rw [LockGraph.step, ← hanswer]
    exact hs.answer _
  | ptr x =>
    obtain rfl := Option.some.inj h
    have hanswer : c.graph.ptr (c.id x) =
        if s.Alive x then s.handles[x]?.map Incarnation.addr else none := by
      obtain ⟨l, hl, -, hmem, hlive⟩ | ⟨hnone, hdead⟩ := hs.lookup x
      · rw [if_pos ⟨l, hl, hmem⟩, hlive.ptr_eq hs.clean.toIndexed, hl, Option.map_some]
      · rw [if_neg hdead, Rep.ptr, hnone]
        rfl
    refine ⟨names, ?_⟩
    rw [LockGraph.step, ← hanswer]
    exact hs.answer _
  | sameId x y =>
    obtain rfl := Option.some.inj h
    have hanswer : decide (c.ids[x]? = c.ids[y]?) = decide (s.handles[x]? = s.handles[y]?) := by
      rw [Bool.eq_iff_iff, decide_eq_true_iff, decide_eq_true_iff, hs.sameId_iff]
    refine ⟨names, ?_⟩
    rw [LockGraph.step, ← hanswer]
    exact hs.answer _

omit hs in
theorem initial : Stands (fun _ _ => False) {} {} := by
  refine ⟨clean_empty, ⟨?_, ?_, ?_, ?_⟩, fun h => ?_, fun h m => ?_, .nil, rfl, ?_⟩
  · exact fun _ _ _ hx => hx.elim
  · exact fun _ _ _ hx => hx.elim
  · exact fun x p hx => absurd hx (not_live_empty x p)
  · exact fun _ _ hx => hx.elim
  · refine iff_of_false (Set.notMem_empty h) ?_
    rintro ⟨-, x, hx⟩
    exact not_live_empty x _ hx
  · refine iff_of_false False.elim ?_
    rintro ⟨_, _, hx, -⟩
    exact hx.elim
  · exact fun id hid => absurd hid.1 (Nat.not_lt_zero _)

end Stands

/-! ## Runs -/

namespace Rep

section Balanced

variable {r : Rep} {t : Finset Addr} {peak removed : Nat} (h : Balanced r t peak removed)
  (hlt : removed < maxVersion)
include h hlt

theorem Balanced.card_spent : r.spent.card = 0 := by
  have := h.spent_mul_le
  by_contra hne
  have := Nat.le_mul_of_pos_left maxVersion (Nat.pos_of_ne_zero hne)
  omega

/-- Without a spent slot an old id does not find a node. -/
theorem Balanced.expired {id : GraphId} (hid : r.Retired id) : r.findNode id = none := by
  obtain ⟨hindex, hversion | ⟨-, hnone, hfree⟩⟩ := hid
  · rw [findNode, if_neg]
    rintro ⟨-, heq⟩
    exact hversion.ne heq.symm
  · have hmem : nodeIndex id ∈ r.spent := mem_spent.mpr ⟨hindex, hnone, hfree⟩
    rw [Finset.card_eq_zero.mp (h.card_spent hlt)] at hmem
    exact absurd hmem (Finset.notMem_empty _)

end Balanced

end Rep

namespace Client
open CppGuard.Rep

variable {maxLocks : Nat} {c : Client}

theorem step_registration {call : Call} {op : Op} (h : call.registration = some op) :
    (c.step maxLocks call).map graph = Rep.step maxLocks c.graph op := by
  cases call with
  | getId thread p =>
    obtain rfl := Option.some.inj h
    rw [Client.step, Rep.step]
    cases c.graph.getId maxLocks thread p <;> rfl
  | removeNode p =>
    obtain rfl := Option.some.inj h
    rw [Client.step, Rep.step]
    cases c.graph.removeNode p <;> rfl
  | _ => cases h

/-- The other calls return, and do not touch the slots. -/
theorem step_same (hg : c.graph.Inv) {call : Call} (h : call.registration = none) :
    ∃ c', c.step maxLocks call = some c' ∧ c'.graph.Inv ∧ SameIndex c.graph c'.graph := by
  have hrefl := (SameIdent.refl c.graph).sameIndex
  cases call with
  | getId thread p => cases h
  | removeNode p => cases h
  | insertEdge x y =>
    obtain ⟨ok, g, hinsert, hg', hsame⟩ := insertEdge_inv hg (c.id x) (c.id y)
    refine ⟨{ c with graph := g }.answer (.bool ok), ?_, hg', hsame.sameIndex⟩
    simp [Client.step, hinsert]
  | removeEdge x y =>
    obtain ⟨hg', hsame⟩ := removeEdge_inv hg (c.id x) (c.id y)
    exact ⟨_, rfl, hg', hsame.sameIndex⟩
  | updateStackTrace x thread allLocks =>
    exact ⟨_, rfl, updateStackTrace_inv hg _ thread allLocks,
      (updateStackTrace_node c.graph _ thread allLocks).1⟩
  | isReachable x y =>
    obtain ⟨-, _, _, hget, -⟩ | ⟨g, hstep, -⟩ :=
      @step_returns maxLocks c.graph hg (.findPath (c.id x) (c.id y) 0)
    · cases hget
    · obtain ⟨⟨len, path⟩, hfind, -⟩ := Option.map_eq_some_iff.mp hstep
      have hfind' : c.graph.findPath (c.id x) (c.id y) 0 [] = some (len, path) := hfind
      refine ⟨c.answer (.bool (decide (0 < len))), ?_, hg, hrefl⟩
      simp [Client.step, isReachable, hfind']
  | hasNode _ | hasEdge _ _ | ptr _ | sameId _ _ => exact ⟨_, rfl, hg, hrefl⟩

theorem exec_stands {calls : List Call} (h : exec (Client.step maxLocks) {} calls = some c)
    (hremoved : (calls.filterMap Call.registration).countP Op.isRemoveNode < maxVersion) :
    (∃ names, Stands names c (LockGraph.run calls)) ∧
      Balanced c.graph (registered (calls.filterMap Call.registration))
        (peak (calls.filterMap Call.registration))
        ((calls.filterMap Call.registration).countP Op.isRemoveNode) := by
  induction calls using List.reverseRecOn generalizing c with
  | nil =>
    obtain rfl := Option.some.inj h
    exact ⟨⟨fun _ _ => False, Stands.initial⟩, balanced_empty⟩
  | append_singleton calls call ih =>
    obtain ⟨c₁, h₁, hstep⟩ := exec_concat.mp h
    rw [List.filterMap_append, List.countP_append] at hremoved
    obtain ⟨⟨names, hs⟩, hbalanced⟩ := ih h₁ (by omega)
    have hrun : LockGraph.run (calls ++ [call]) = (LockGraph.run calls).step call := by
      simp [LockGraph.run]
    have hbalanced' : Balanced c.graph (registered ((calls ++ [call]).filterMap Call.registration))
        (peak ((calls ++ [call]).filterMap Call.registration))
        (((calls ++ [call]).filterMap Call.registration).countP Op.isRemoveNode) := by
      rw [List.filterMap_append]
      cases hop : call.registration with
      | none =>
        obtain ⟨c', hstep', hg', hsame⟩ := @step_same maxLocks c₁ hbalanced.inv call hop
        obtain rfl := Option.some.inj (hstep'.symm.trans hstep)
        have hkept := hbalanced.same hg' hsame
        rw [max_eq_left (card_registered_le _)] at hkept
        simpa [hop] using hkept
      | some op =>
        have hone : [call].filterMap Call.registration = [op] := by simp [hop]
        have hgraph := @step_registration maxLocks c₁ call op hop
        rw [hstep, Option.map_some] at hgraph
        rw [hone, peak_concat, registered_concat, List.countP_append, List.countP_singleton]
        obtain ⟨hnone, -⟩ | ⟨g, hsome, hkept⟩ := hbalanced.step maxLocks op
        · cases hnone.symm.trans hgraph.symm
        · obtain rfl := Option.some.inj (hgraph.trans hsome)
          exact hkept
    have hexpired : ∀ id, c.graph.Retired id → c.graph.findNode id = none := fun _ =>
      hbalanced'.expired (by rwa [List.filterMap_append, List.countP_append])
    exact ⟨hrun ▸ hs.step hstep hexpired, hbalanced'⟩

/-! ## The limits of the vectors -/

theorem step_unbounded {call : Call} {c' : Client} (h : Bounded.step maxLocks c call = some c') :
    c.step maxLocks call = some c' := by
  cases call with
  | insertEdge x y =>
    obtain ⟨res, hinsert, h⟩ := Option.bind_eq_some_iff.mp h
    exact Option.bind_eq_some_iff.mpr ⟨res, Rep.Bounded.insertEdge_unbounded hinsert, h⟩
  | isReachable x y =>
    obtain ⟨reachable, hreachable, h⟩ := Option.bind_eq_some_iff.mp h
    obtain ⟨res, hfind, hreachable⟩ := Option.bind_eq_some_iff.mp hreachable
    exact Option.bind_eq_some_iff.mpr ⟨reachable, Option.bind_eq_some_iff.mpr
      ⟨res, Rep.Bounded.findPath_unbounded hfind, hreachable⟩, h⟩
  | _ => exact h

section

variable (hfits : c.graph.Fits)
include hfits

theorem step_bounded (call : Call) : Bounded.step maxLocks c call = c.step maxLocks call := by
  cases call with
  | insertEdge x y =>
    rw [Bounded.step, Client.step, Rep.Bounded.insertEdge_eq hfits]
  | isReachable x y =>
    rw [Bounded.step, Client.step, Rep.Bounded.isReachable, isReachable,
      Rep.Bounded.findPath_eq hfits]
  | _ => rfl

theorem small_step {call : Call} {c' : Client} (h : c.step maxLocks call = some c') :
    c'.graph.Small := by
  cases call with
  | getId thread p =>
    obtain ⟨_, hget, h⟩ := Option.bind_eq_some_iff.mp h
    exact Option.some.inj h ▸ hfits.small.getId hget
  | removeNode p =>
    obtain ⟨_, hremove, h⟩ := Option.bind_eq_some_iff.mp h
    exact Option.some.inj h ▸ hfits.small.removeNode hfits.toInv hremove
  | insertEdge x y =>
    obtain ⟨_, hinsert, h⟩ := Option.bind_eq_some_iff.mp h
    exact Option.some.inj h ▸ hfits.small.insertEdge hfits.slots_le hinsert
  | removeEdge x y => exact Option.some.inj h ▸ hfits.small.removeEdge _ _
  | updateStackTrace x thread allLocks =>
    exact Option.some.inj h ▸ hfits.small.updateStackTrace _ thread allLocks
  | isReachable x y =>
    obtain ⟨_, -, h⟩ := Option.bind_eq_some_iff.mp h
    exact Option.some.inj h ▸ hfits.small
  | hasNode _ | hasEdge _ _ | ptr _ | sameId _ _ => exact Option.some.inj h ▸ hfits.small

end

theorem exec_bounded {calls : List Call}
    (hpeak : peak (calls.filterMap Call.registration) ≤ slotLimit)
    (hremoved : (calls.filterMap Call.registration).countP Op.isRemoveNode < maxVersion) :
    ∃ c, exec (Bounded.step maxLocks) {} calls = some c ∧ c.graph.Small := by
  induction calls using List.reverseRecOn with
  | nil => exact ⟨{}, rfl, small_empty⟩
  | append_singleton calls call ih =>
    rw [List.filterMap_append] at hpeak hremoved
    rw [List.countP_append] at hremoved
    have hpeak₁ := (peak_append_le ..).trans hpeak
    obtain ⟨c, hexec, hsmall⟩ := ih hpeak₁ (by omega)
    obtain ⟨-, hbalanced⟩ := exec_stands (exec_mono (fun _ _ _ => step_unbounded) hexec) (by omega)
    have hspent := hbalanced.card_spent (by omega)
    have hsize : c.graph.size ≤ slotLimit := by
      have := hbalanced.size_le
      omega
    have hreturns : ∃ c', c.step maxLocks call = some c' := by
      cases hop : call.registration with
      | none =>
        obtain ⟨c', hstep, -⟩ := @step_same maxLocks c hbalanced.inv call hop
        exact ⟨c', hstep⟩
      | some op =>
        have hone : [call].filterMap Call.registration = [op] := by simp [hop]
        rw [hone, peak_concat, registered_concat] at hpeak
        obtain ⟨-, hfull⟩ | ⟨g, hstep, -⟩ := hbalanced.step maxLocks op
        · have hlimit : slotLimit ≤ vecMaxSize := by decide
          omega
        · rw [← step_registration hop] at hstep
          obtain ⟨c', hstep, -⟩ := Option.map_eq_some_iff.mp hstep
          exact ⟨c', hstep⟩
    obtain ⟨c', hstep⟩ := hreturns
    have hfits : c.graph.Fits := ⟨hbalanced.inv, hsmall, hsize⟩
    exact ⟨c', exec_concat.mpr ⟨c, hexec, (step_bounded hfits call).trans hstep⟩,
      small_step hfits hstep⟩

/-- A call that returns answers what the graph of the locks tells, as long as no slot has gone
through all its versions; and every call returns if few pointers are registered at the same time. -/
theorem exec_answers (maxLocks : Nat) (calls : List Call)
    (hremoved : (calls.filterMap Call.registration).countP Op.isRemoveNode < maxVersion) :
    (∀ c, exec (Bounded.step maxLocks) {} calls = some c →
      c.answers = (LockGraph.run calls).answers) ∧
    (peak (calls.filterMap Call.registration) ≤ slotLimit →
      ∃ c, exec (Bounded.step maxLocks) {} calls = some c) := by
  refine ⟨fun c hexec => ?_, fun hpeak => ?_⟩
  · have hexec' := exec_mono (fun _ _ _ => step_unbounded) hexec
    obtain ⟨⟨names, hs⟩, -⟩ := exec_stands hexec' hremoved
    exact hs.answers
  · obtain ⟨c, hexec, -⟩ := @exec_bounded maxLocks calls hpeak hremoved
    exact ⟨c, hexec⟩

/-- The lock 16 is removed and registered again between two questions about its first id. -/
def sampleCalls : List Call :=
  [.getId 1 8, .getId 1 16, .insertEdge 0 1, .isReachable 0 1, .insertEdge 1 0, .removeNode 16,
   .getId 2 16, .hasNode 1, .insertEdge 2 0, .isReachable 0 2, .isReachable 2 0, .sameId 1 2]

theorem exec_answers_sample : ∃ c, exec (Bounded.step 2) {} sampleCalls = some c ∧
    c.answers = (LockGraph.run sampleCalls).answers := by
  obtain ⟨hanswers, hreturns⟩ := exec_answers 2 sampleCalls (by decide +kernel)
  obtain ⟨c, hexec⟩ := hreturns (by decide +kernel)
  exact ⟨c, hexec, hanswers c hexec⟩

end Client
end CppGuard
