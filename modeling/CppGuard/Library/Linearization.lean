import CppGuard.Library.Transition

/-!
# Linearizations

The operations of several parties are cut into sections, and the sections of different parties
are interleaved. `point` says at which sections which operations take effect. If every section
is matched by the operations that take effect in it, then a run of sections is matched by the
run of its linearization, in which every operation is one step.
-/
namespace Transition

variable {S E A F : Type*} {step : S → E → Option S} {astep : A → F → Option A}

/-- The operations that take effect in a run, in the order in which they do. -/
def linearization (step : S → E → Option S) (point : S → E → List F) : S → List E → List F
  | _, [] => []
  | s, e :: es => point s e ++
    match step s e with
    | none => []
    | some t => linearization step point t es

variable {point : S → E → List F}

theorem linearization_append {s t : S} {es fs : List E} (h : exec step s es = some t) :
    linearization step point s (es ++ fs) =
      linearization step point s es ++ linearization step point t fs := by
  induction es generalizing s with
  | nil =>
    obtain rfl := Option.some.inj h
    rfl
  | cons e es ih =>
    obtain ⟨u, hu, hes⟩ := exec_cons.mp h
    simp only [List.cons_append, linearization, hu, ih hes, List.append_assoc]

/-- A step function that does less takes effect in the same way. -/
theorem linearization_mono {step' : S → E → Option S}
    (hstep : ∀ s e t, step' s e = some t → step s e = some t) {s t : S} {es : List E}
    (h : exec step' s es = some t) :
    linearization step' point s es = linearization step point s es := by
  induction es generalizing s with
  | nil => rfl
  | cons e es ih =>
    obtain ⟨u, hu, hes⟩ := exec_cons.mp h
    simp only [linearization, hu, hstep s e u hu, ih hes]

/-- What took effect stays where it is: a longer run has a longer linearization. -/
theorem linearization_prefix {s t : S} {es fs : List E} (h : exec step s es = some t) :
    linearization step point s es <+: linearization step point s (es ++ fs) :=
  linearization_append h ▸ List.prefix_append _ _

/-- A run of sections is matched by the operations that take effect in it. -/
theorem exec_linearization {I : S → A → Prop} {P : S → E → Prop}
    (hstep : ∀ s a e t, I s a → P s e → step s e = some t →
      ∃ b, exec astep a (point s e) = some b ∧ I t b)
    {s t : S} {a : A} {es : List E} (hs : I s a) (h : exec step s es = some t)
    (along : Along P step s es) :
    ∃ b, exec astep a (linearization step point s es) = some b ∧ I t b := by
  induction es generalizing s a with
  | nil =>
    obtain rfl := Option.some.inj h
    exact ⟨a, rfl, hs⟩
  | cons e es ih =>
    obtain ⟨u, hu, hes⟩ := exec_cons.mp h
    simp only [Along, hu] at along
    obtain ⟨b, hb, hub⟩ := hstep s a e u hs along.1 hu
    obtain ⟨d, hd, htd⟩ := ih hub hes along.2
    refine ⟨d, ?_, htd⟩
    simp only [linearization, hu]
    exact exec_append.mpr ⟨b, hb, hd⟩

/-- An invariant may speak of the operations that took effect so far. -/
theorem linearization_invariant {I : S → List F → Prop}
    (hstep : ∀ s fs e t, I s fs → step s e = some t → I t (fs ++ point s e))
    {s t : S} {fs : List F} {es : List E} (hs : I s fs) (h : exec step s es = some t) :
    I t (fs ++ linearization step point s es) := by
  induction es generalizing s fs with
  | nil =>
    obtain rfl := Option.some.inj h
    simpa [linearization] using hs
  | cons e es ih =>
    obtain ⟨u, hu, hes⟩ := exec_cons.mp h
    simp only [linearization, hu, ← List.append_assoc]
    exact ih (hstep s fs e u hs hu) hes

/-- What was begun either took effect or waits. -/
theorem linearization_balance {G : Type*} {begun : E → List G} {waiting : S → List G}
    {took : F → List G}
    (hstep : ∀ s e t, step s e = some t →
      waiting s ++ begun e = (point s e).flatMap took ++ waiting t)
    {s t : S} {es : List E} (h : exec step s es = some t) :
    waiting s ++ es.flatMap begun =
      (linearization step point s es).flatMap took ++ waiting t := by
  induction es generalizing s with
  | nil =>
    obtain rfl := Option.some.inj h
    simp [linearization]
  | cons e es ih =>
    obtain ⟨u, hu, hes⟩ := exec_cons.mp h
    simp only [linearization, hu, List.flatMap_cons, List.flatMap_append, List.append_assoc]
    rw [← ih hes, ← List.append_assoc, hstep s e u hu, List.append_assoc]

end Transition
