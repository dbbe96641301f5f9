import Mathlib

/-!
# Acyclic graphs that grow and shrink

An `AcyclicGraph` has nodes and arcs between nodes, and no cycle. Nodes and arcs can be added and
removed; an arc that closes a cycle is refused.
-/
open Relation

structure AcyclicGraph (ν : Type*) where
  nodes : Set ν
  Arc : ν → ν → Prop
  mem_of_arc : ∀ {a b}, Arc a b → a ∈ nodes ∧ b ∈ nodes
  acyclic : ∀ a, ¬ TransGen Arc a a

namespace AcyclicGraph

variable {ν : Type*} {G : AcyclicGraph ν} {a b : ν}

@[ext]
theorem ext {G H : AcyclicGraph ν} (nodes : ∀ a, a ∈ G.nodes ↔ a ∈ H.nodes)
    (arc : ∀ a b, G.Arc a b ↔ H.Arc a b) : G = H := by
  cases G
  cases H
  simp only [mk.injEq]
  exact ⟨Set.ext nodes, funext fun a => funext fun b => propext (arc a b)⟩

def empty : AcyclicGraph ν where
  nodes := ∅
  Arc _ _ := False
  mem_of_arc := False.elim
  acyclic a h := by
    obtain ⟨_, -, h⟩ := TransGen.tail'_iff.mp h
    exact h

/-- There is a path between two nodes, which may be the same. -/
def Reaches (G : AcyclicGraph ν) (a b : ν) : Prop :=
  a ∈ G.nodes ∧ b ∈ G.nodes ∧ ReflTransGen G.Arc a b

def addNode (G : AcyclicGraph ν) (a : ν) : AcyclicGraph ν where
  nodes := insert a G.nodes
  Arc := G.Arc
  mem_of_arc h := ⟨Or.inr (G.mem_of_arc h).1, Or.inr (G.mem_of_arc h).2⟩
  acyclic := G.acyclic

/-- The node goes with its arcs. -/
def removeNode (G : AcyclicGraph ν) (a : ν) : AcyclicGraph ν where
  nodes := G.nodes \ {a}
  Arc b c := G.Arc b c ∧ b ≠ a ∧ c ≠ a
  mem_of_arc h := ⟨⟨(G.mem_of_arc h.1).1, h.2.1⟩, (G.mem_of_arc h.1).2, h.2.2⟩
  acyclic b h := G.acyclic b (TransGen.mono (fun _ _ h => h.1) _ _ h)

def removeArc (G : AcyclicGraph ν) (a b : ν) : AcyclicGraph ν where
  nodes := G.nodes
  Arc c d := G.Arc c d ∧ ¬ (c = a ∧ d = b)
  mem_of_arc h := G.mem_of_arc h.1
  acyclic c h := G.acyclic c (TransGen.mono (fun _ _ h => h.1) _ _ h)

/-- A path with a new arc is an old one, or leads to the new arc and away from it. -/
theorem reflTransGen_or {r : ν → ν → Prop} {c d : ν}
    (h : ReflTransGen (fun x y => r x y ∨ x = a ∧ y = b) c d) :
    ReflTransGen r c d ∨ ReflTransGen r c a ∧ ReflTransGen r b d := by
  induction h with
  | refl => exact Or.inl .refl
  | tail _ harc ih =>
    obtain harc | ⟨rfl, rfl⟩ := harc
    · exact ih.imp (fun h => h.tail harc) fun h => ⟨h.1, h.2.tail harc⟩
    · exact Or.inr ⟨ih.elim id And.left, .refl⟩

/-- A new arc closes no cycle if there was no path the other way. -/
theorem acyclic_or {r : ν → ν → Prop} (acyclic : ∀ c, ¬ TransGen r c c)
    (hno : ¬ ReflTransGen r b a) (c : ν) :
    ¬ TransGen (fun x y => r x y ∨ x = a ∧ y = b) c c := by
  intro h
  obtain ⟨d, harc | ⟨rfl, rfl⟩, hpath⟩ := TransGen.head'_iff.mp h
  · obtain hpath | ⟨hda, hbc⟩ := reflTransGen_or hpath
    · exact acyclic c (TransGen.head' harc hpath)
    · exact hno (hbc.trans (.head harc hda))
  · obtain hpath | ⟨hba, -⟩ := reflTransGen_or hpath
    · exact hno hpath
    · exact hno hba

/-- The arc between two nodes is added, unless there is a path the other way. -/
def addArc (G : AcyclicGraph ν) (a b : ν) : AcyclicGraph ν where
  nodes := G.nodes
  Arc c d := G.Arc c d ∨ (a ∈ G.nodes ∧ b ∈ G.nodes ∧ ¬ ReflTransGen G.Arc b a) ∧ c = a ∧ d = b
  mem_of_arc h := by
    obtain h | ⟨⟨ha, hb, -⟩, rfl, rfl⟩ := h
    · exact G.mem_of_arc h
    · exact ⟨ha, hb⟩
  acyclic c h := by
    by_cases hadd : a ∈ G.nodes ∧ b ∈ G.nodes ∧ ¬ ReflTransGen G.Arc b a
    · simp only [hadd, true_and, not_false_eq_true] at h
      exact acyclic_or G.acyclic hadd.2.2 c h
    · simp only [hadd, false_and, or_false] at h
      exact G.acyclic c h

end AcyclicGraph
