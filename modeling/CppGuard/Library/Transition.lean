import Mathlib.Data.List.Induction

/-!
# Runs of a partial step function

`exec step s es` performs the events `es` one after the other; `none` is an event that is
not possible. A property that every step keeps holds after every run.
-/
namespace Transition

variable {S E : Type*} {step : S → E → Option S}

def exec (step : S → E → Option S) (s : S) (es : List E) : Option S := es.foldlM step s

theorem exec_cons {s t : S} {e : E} {es : List E} :
    exec step s (e :: es) = some t ↔ ∃ u, step s e = some u ∧ exec step u es = some t := by
  simp [exec, Option.bind_eq_some_iff]

theorem exec_append {s t : S} {es fs : List E} :
    exec step s (es ++ fs) = some t ↔ ∃ u, exec step s es = some u ∧ exec step u fs = some t := by
  simp [exec, List.foldlM_append, Option.bind_eq_some_iff]

theorem exec_concat {s t : S} {es : List E} {e : E} :
    exec step s (es ++ [e]) = some t ↔ ∃ u, exec step s es = some u ∧ step u e = some t := by
  simp [exec, List.foldlM_append, Option.bind_eq_some_iff]

/-- A step function that does less has fewer runs. -/
theorem exec_mono {step' : S → E → Option S}
    (hstep : ∀ s e t, step' s e = some t → step s e = some t) {s t : S} {es : List E}
    (h : exec step' s es = some t) : exec step s es = some t := by
  induction es generalizing s with
  | nil => exact h
  | cons e es ih =>
    obtain ⟨u, hu, hes⟩ := exec_cons.mp h
    exact exec_cons.mpr ⟨u, hstep s e u hu, ih hes⟩

/-- A run is possible if every event is possible behind those before it. -/
theorem exec_of_progress {s : S} {es : List E}
    (hgoes : ∀ es' e t, es' ++ [e] <+: es → exec step s es' = some t → ∃ u, step t e = some u) :
    ∃ t, exec step s es = some t := by
  induction es using List.reverseRecOn with
  | nil => exact ⟨s, rfl⟩
  | append_singleton es e ih =>
    obtain ⟨t, ht⟩ := ih fun es' e' t hpre => hgoes es' e' t (hpre.trans (by simp))
    obtain ⟨u, hu⟩ := hgoes es e t List.prefix_rfl ht
    exact ⟨u, exec_concat.mpr ⟨t, ht, hu⟩⟩

/-- A view of the states that determines the steps determines the runs. -/
theorem exec_map {T : Type*} {step' : T → E → Option T} {f : S → T}
    (hstep : ∀ s e, (step s e).map f = step' (f s) e) (s : S) (es : List E) :
    (exec step s es).map f = exec step' (f s) es := by
  induction es generalizing s with
  | nil => rfl
  | cons e es ih =>
    simp only [exec, List.foldlM_cons, Option.bind_eq_bind, ← hstep]
    cases step s e with
    | none => rfl
    | some t => exact ih t

/-- The run can be computed, and its end can be checked. -/
theorem exists_exec {Q : S → Prop} [DecidablePred Q] {s : S} {es : List E}
    (h : (exec step s es).any (fun t => decide (Q t)) = true) :
    ∃ t, exec step s es = some t ∧ Q t := by
  obtain ⟨t, ht, hQ⟩ := (Option.any_eq_true _ _).mp h
  exact ⟨t, ht, of_decide_eq_true hQ⟩

/-- What the steps with the events of a run keep, the run keeps. -/
theorem exec_invariant_of_mem {P : S → Prop} {es : List E}
    (hstep : ∀ s, ∀ e ∈ es, ∀ t, P s → step s e = some t → P t)
    {s t : S} (hs : P s) (h : exec step s es = some t) : P t := by
  induction es generalizing s with
  | nil => exact Option.some.inj h ▸ hs
  | cons e es ih =>
    obtain ⟨u, hu, hes⟩ := exec_cons.mp h
    exact ih (fun s e he => hstep s e (by simp [he])) (hstep s e (by simp) u hs hu) hes

/-- What every step keeps, a run keeps. -/
theorem exec_invariant {P : S → Prop} (hstep : ∀ s e t, P s → step s e = some t → P t)
    {s t : S} {es : List E} (hs : P s) (h : exec step s es = some t) : P t :=
  exec_invariant_of_mem (fun s e _ => hstep s e) hs h

/-- If the events that `p` counts lower the rank, and no event raises it, then a run has no more
of them than the rank says. -/
theorem exec_countP_le (rank : S → ℕ) (p : E → Bool) {I : S → Prop}
    (hstep : ∀ s e t, I s → step s e = some t →
      I t ∧ rank t + (if p e = true then 1 else 0) ≤ rank s)
    {s t : S} {es : List E} (hs : I s) (h : exec step s es = some t) :
    rank t + es.countP p ≤ rank s := by
  induction es generalizing s with
  | nil =>
    obtain rfl := Option.some.inj h
    exact Nat.le_refl _
  | cons e es ih =>
    obtain ⟨u, hu, hes⟩ := exec_cons.mp h
    obtain ⟨hI, hrank⟩ := hstep s e u hs hu
    have hrest := ih hI hes
    rw [List.countP_cons]
    omega

/-! ## Runs under an assumption -/

/-- `P` holds at every step of a run, of the state before the step and its event. -/
def Along (P : S → E → Prop) (step : S → E → Option S) : S → List E → Prop
  | _, [] => True
  | s, e :: es => P s e ∧
    match step s e with
    | none => True
    | some t => Along P step t es

instance decidableAlong {P : S → E → Prop} [∀ s e, Decidable (P s e)] (s : S) (es : List E) :
    Decidable (Along P step s es) :=
  match es with
  | [] => isTrue trivial
  | e :: es =>
    have : Decidable (match step s e with
        | none => True
        | some t => Along P step t es) :=
      match step s e with
      | none => isTrue trivial
      | some t => decidableAlong t es
    inferInstanceAs (Decidable (_ ∧ _))

variable {P : S → E → Prop}

theorem along_append {s t : S} {es fs : List E} (h : exec step s es = some t) :
    Along P step s (es ++ fs) ↔ Along P step s es ∧ Along P step t fs := by
  induction es generalizing s with
  | nil =>
    obtain rfl := Option.some.inj h
    simp [Along]
  | cons e es ih =>
    obtain ⟨u, hu, hes⟩ := exec_cons.mp h
    simp only [List.cons_append, Along, hu, ih hes, and_assoc]

theorem Along.of_prefix {s t : S} {es es' : List E} {e : E} (h : Along P step s es)
    (hpre : es' ++ [e] <+: es) (hrun : exec step s es' = some t) : P t e := by
  obtain ⟨rest, rfl⟩ := hpre
  rw [List.append_assoc] at h
  exact ((along_append hrun).mp h).2.1

theorem along_of_mem {s : S} {es : List E} (h : ∀ s, ∀ e ∈ es, P s e) : Along P step s es := by
  induction es generalizing s with
  | nil => trivial
  | cons e es ih =>
    refine ⟨h s e (by simp), ?_⟩
    cases step s e with
    | none => trivial
    | some u => exact ih fun s e he => h s e (by simp [he])

theorem along_and {Q : S → E → Prop} {s : S} {es : List E} :
    Along (fun s e => P s e ∧ Q s e) step s es ↔ Along P step s es ∧ Along Q step s es := by
  induction es generalizing s with
  | nil => simp [Along]
  | cons e es ih =>
    cases hu : step s e with
    | none => simp [Along, hu]
    | some u =>
      simp only [Along, hu, ih]
      tauto

theorem Along.mono_of_mem {Q : S → E → Prop} {s : S} {es : List E}
    (hmono : ∀ s, ∀ e ∈ es, P s e → Q s e) (h : Along P step s es) : Along Q step s es := by
  induction es generalizing s with
  | nil => trivial
  | cons e es ih =>
    obtain ⟨he, hes⟩ := h
    refine ⟨hmono s e (by simp) he, ?_⟩
    cases hu : step s e with
    | none => trivial
    | some u =>
      rw [hu] at hes
      exact ih (fun s e he => hmono s e (by simp [he])) hes

/-- What every step under the assumption keeps in relation to the steps of another system,
a run keeps in relation to its run. -/
theorem exec_simulation {A : Type*} {I : S → A → Prop} {astep : A → E → A}
    (hstep : ∀ s a e t, I s a → P s e → step s e = some t → I t (astep a e))
    {s t : S} {a : A} {es : List E} (hs : I s a) (h : exec step s es = some t)
    (along : Along P step s es) : I t (es.foldl astep a) := by
  induction es generalizing s a with
  | nil => exact Option.some.inj h ▸ hs
  | cons e es ih =>
    obtain ⟨u, hu, hes⟩ := exec_cons.mp h
    simp only [Along, hu] at along
    exact ih (hstep s a e u hs along.1 hu) hes along.2

/-- The same, if the other system is partial, too. -/
theorem exec_pair {A : Type*} {I : S → A → Prop} {astep : A → E → Option A}
    (hstep : ∀ s a e t b, I s a → P s e → step s e = some t → astep a e = some b → I t b)
    {s t : S} {a b : A} {es : List E} (hs : I s a) (h : exec step s es = some t)
    (ha : exec astep a es = some b) (along : Along P step s es) : I t b := by
  induction es generalizing s a with
  | nil =>
    obtain rfl := Option.some.inj h
    obtain rfl := Option.some.inj ha
    exact hs
  | cons e es ih =>
    obtain ⟨u, hu, hes⟩ := exec_cons.mp h
    obtain ⟨d, hd, hes'⟩ := exec_cons.mp ha
    simp only [Along, hu] at along
    exact ih (hstep s a e u d hs along.1 hu hd) hes hes' along.2

/-- What every step under the assumption keeps, a run keeps. -/
theorem exec_invariant_along {I : S → Prop}
    (hstep : ∀ s e t, I s → P s e → step s e = some t → I t)
    {s t : S} {es : List E} (hs : I s) (h : exec step s es = some t)
    (along : Along P step s es) : I t := by
  induction es generalizing s with
  | nil => exact Option.some.inj h ▸ hs
  | cons e es ih =>
    obtain ⟨u, hu, hes⟩ := exec_cons.mp h
    simp only [Along, hu] at along
    exact ih (hstep s e u hs along.1 hu) hes along.2

/-! ## What holds all the time -/

/-- `Q` holds in every state of a run, the first and the last one included. -/
def Always (Q : S → Prop) (step : S → E → Option S) (s : S) (es : List E) : Prop :=
  ∀ es', es' <+: es → ∀ t, exec step s es' = some t → Q t

variable {Q : S → Prop}

theorem always_nil {s : S} : Always Q step s [] ↔ Q s := by
  constructor
  · exact fun h => h [] List.prefix_rfl s rfl
  · intro hs es' hes' t ht
    obtain rfl := List.prefix_nil.mp hes'
    exact Option.some.inj ht ▸ hs

theorem always_cons {s t : S} {e : E} {es : List E} (hstep : step s e = some t) :
    Always Q step s (e :: es) ↔ Q s ∧ Always Q step t es := by
  constructor
  · intro h
    refine ⟨h [] (List.nil_prefix) s rfl, fun es' hes' u hu => ?_⟩
    exact h (e :: es') ((List.prefix_cons_inj e).mpr hes') u (exec_cons.mpr ⟨t, hstep, hu⟩)
  · rintro ⟨hs, h⟩ es' hes' u hu
    cases es' with
    | nil => exact Option.some.inj hu ▸ hs
    | cons e' es' =>
      obtain ⟨rfl, hprefix⟩ := List.cons_prefix_cons.mp hes'
      obtain ⟨t', ht', hes'⟩ := exec_cons.mp hu
      obtain rfl := Option.some.inj (hstep.symm.trans ht')
      exact h es' hprefix u hes'

theorem always_cons_none {s : S} {e : E} {es : List E} (hstep : step s e = none) :
    Always Q step s (e :: es) ↔ Q s := by
  constructor
  · exact fun h => h [] List.nil_prefix s rfl
  · rintro hs es' hes' u hu
    cases es' with
    | nil => exact Option.some.inj hu ▸ hs
    | cons e' es' =>
      obtain ⟨rfl, -⟩ := List.cons_prefix_cons.mp hes'
      obtain ⟨t, ht, -⟩ := exec_cons.mp hu
      cases hstep.symm.trans ht

instance decidableAlways [DecidablePred Q] (s : S) (es : List E) :
    Decidable (Always Q step s es) :=
  match es with
  | [] => decidable_of_iff (Q s) always_nil.symm
  | e :: es =>
    match hstep : step s e with
    | none => decidable_of_iff (Q s) (always_cons_none hstep).symm
    | some t =>
      have := decidableAlways t es
      decidable_of_iff (Q s ∧ Always Q step t es) (always_cons hstep).symm

theorem Always.last {s t : S} {es : List E} (h : Always Q step s es)
    (hrun : exec step s es = some t) : Q t :=
  h es List.prefix_rfl t hrun

/-- An invariant `I` with a condition `P` on the steps. The invariant gives `Q`, and under the
condition `R` of the step; a step that does not meet the condition breaks `R`, or leads to a
state without `Q`. Then `Q` and `R` hold all the time if and only if every step meets the
condition. -/
theorem always_along_iff {I : S → Prop} {R : S → E → Prop} {es : List E} (hQ : ∀ s, I s → Q s)
    (hkeeps : ∀ s, ∀ e ∈ es, ∀ t, I s → P s e → step s e = some t → I t ∧ R s e)
    (hbreaks : ∀ s, ∀ e ∈ es, ∀ t, I s → ¬ P s e → step s e = some t → R s e → ¬ Q t)
    {s t : S} (hs : I s) (h : exec step s es = some t) :
    (Always Q step s es ∧ Along R step s es) ↔ Along P step s es := by
  induction es generalizing s with
  | nil => exact ⟨fun _ => trivial, fun _ => ⟨always_nil.mpr (hQ s hs), trivial⟩⟩
  | cons e es ih =>
    obtain ⟨u, hu, hes⟩ := exec_cons.mp h
    have hrest : I u → ((Always Q step u es ∧ Along R step u es) ↔ Along P step u es) :=
      fun hI => ih (fun s e he => hkeeps s e (List.mem_cons_of_mem _ he))
        (fun s e he => hbreaks s e (List.mem_cons_of_mem _ he)) hI hes
    rw [always_cons hu]
    simp only [Along, hu]
    constructor
    · rintro ⟨⟨-, halways⟩, hR, halong⟩
      have hP : P s e := by
        by_contra hno
        exact hbreaks s e List.mem_cons_self u hs hno hu hR (halways [] List.nil_prefix u rfl)
      have hI := (hkeeps s e List.mem_cons_self u hs hP hu).1
      exact ⟨hP, (hrest hI).mp ⟨halways, halong⟩⟩
    · rintro ⟨hP, halong⟩
      obtain ⟨hI, hR⟩ := hkeeps s e List.mem_cons_self u hs hP hu
      obtain ⟨halways, hrest⟩ := (hrest hI).mpr halong
      exact ⟨⟨hQ s hs, halways⟩, hR, hrest⟩

/-- The same without a condition `R`. -/
theorem always_iff_along {I : S → Prop} {es : List E} (hQ : ∀ s, I s → Q s)
    (hkeeps : ∀ s, ∀ e ∈ es, ∀ t, I s → P s e → step s e = some t → I t)
    (hbreaks : ∀ s, ∀ e ∈ es, ∀ t, I s → ¬ P s e → step s e = some t → ¬ Q t)
    {s t : S} (hs : I s) (h : exec step s es = some t) :
    Always Q step s es ↔ Along P step s es := by
  have hiff := always_along_iff (R := fun _ _ => True) hQ
    (fun s e he t hI hP hstep => ⟨hkeeps s e he t hI hP hstep, trivial⟩)
    (fun s e he t hI hP hstep _ => hbreaks s e he t hI hP hstep) hs h
  rw [← hiff]
  exact ⟨fun h => ⟨h, along_of_mem fun _ _ _ => trivial⟩, And.left⟩

/-- What an invariant says about the next step holds along a run that keeps it. -/
theorem along_of_invariant {I : S → Prop} {R : S → E → Prop} {es : List E}
    (hR : ∀ s, ∀ e ∈ es, ∀ t, I s → step s e = some t → R s e)
    (hstep : ∀ s, ∀ e ∈ es, ∀ t, I s → P s e → step s e = some t → I t)
    {s t : S} (hs : I s) (h : exec step s es = some t) (along : Along P step s es) :
    Along R step s es := by
  induction es generalizing s with
  | nil => trivial
  | cons e es ih =>
    obtain ⟨u, hu, hes⟩ := exec_cons.mp h
    simp only [Along, hu] at along ⊢
    have hI := hstep s e List.mem_cons_self u hs along.1 hu
    exact ⟨hR s e List.mem_cons_self u hs hu,
      ih (fun s e he => hR s e (List.mem_cons_of_mem _ he))
        (fun s e he => hstep s e (List.mem_cons_of_mem _ he)) hI hes along.2⟩

/-- The same, if the next step is under the assumption, too. -/
theorem along_of_invariant_along {I : S → Prop} {R : S → E → Prop} {es : List E}
    (hR : ∀ s e t, I s → P s e → step s e = some t → R s e)
    (hstep : ∀ s e t, I s → P s e → step s e = some t → I t)
    {s t : S} (hs : I s) (h : exec step s es = some t) (along : Along P step s es) :
    Along R step s es := by
  induction es generalizing s with
  | nil => trivial
  | cons e es ih =>
    obtain ⟨u, hu, hes⟩ := exec_cons.mp h
    simp only [Along, hu] at along ⊢
    exact ⟨hR s e u hs along.1 hu, ih (hstep s e u hs along.1 hu) hes along.2⟩

/-- Two conditions that agree under an invariant agree along a run. -/
theorem along_congr {I : S → Prop} {R : S → E → Prop} {es : List E}
    (hiff : ∀ s, ∀ e ∈ es, I s → (R s e ↔ P s e))
    (hstep : ∀ s, ∀ e ∈ es, ∀ t, I s → step s e = some t → I t) {s : S} (hs : I s) :
    Along R step s es ↔ Along P step s es := by
  induction es generalizing s with
  | nil => exact Iff.rfl
  | cons e es ih =>
    refine and_congr (hiff s e List.mem_cons_self hs) ?_
    cases hu : step s e with
    | none => exact Iff.rfl
    | some u =>
      exact ih (fun s e he => hiff s e (List.mem_cons_of_mem _ he))
        (fun s e he => hstep s e (List.mem_cons_of_mem _ he)) (hstep s e List.mem_cons_self u hs hu)

/-! ## What has happened before -/

/-- A step with `P` was made, and none with `Q` after it. -/
def Since (P Q : S → E → Prop) (step : S → E → Option S) : S → List E → Prop
  | _, [] => False
  | s, e :: es =>
    match step s e with
    | none => False
    | some t => P s e ∧ Along (fun s e => ¬ Q s e) step t es ∨ Since P Q step t es

instance decidableSince {P Q : S → E → Prop} [∀ s e, Decidable (P s e)]
    [∀ s e, Decidable (Q s e)] (s : S) (es : List E) : Decidable (Since P Q step s es) :=
  match es with
  | [] => isFalse id
  | e :: es =>
    match hstep : step s e with
    | none => isFalse (by simp [Since, hstep])
    | some t =>
      have := decidableSince (P := P) (Q := Q) t es
      decidable_of_iff (P s e ∧ Along (fun s e => ¬ Q s e) step t es ∨ Since P Q step t es)
        (by simp [Since, hstep])

theorem since_concat {P Q : S → E → Prop} {s t u : S} {es : List E} {e : E}
    (h : exec step s es = some t) (hstep : step t e = some u) :
    Since P Q step s (es ++ [e]) ↔ P t e ∨ ¬ Q t e ∧ Since P Q step s es := by
  induction es generalizing s with
  | nil =>
    obtain rfl := Option.some.inj h
    simp [Since, Along, hstep]
  | cons e' es ih =>
    obtain ⟨v, hv, hes⟩ := exec_cons.mp h
    have halong : Along (fun s e => ¬ Q s e) step v (es ++ [e]) ↔ _ := along_append hes
    simp only [List.cons_append, Since, hv, ih hes, halong, Along, hstep, and_true]
    tauto

/-- The steps of a run, with what has happened before them. -/
def record (step : S → E → Option S) (x : S × List E) (e : E) : Option (S × List E) :=
  (step x.1 e).map fun t => (t, x.2 ++ [e])

theorem record_eq_some {x y : S × List E} {e : E} :
    record step x e = some y ↔ ∃ t, step x.1 e = some t ∧ (t, x.2 ++ [e]) = y := by
  rw [record, Option.map_eq_some_iff]

/-- A condition that does not ask for it holds along the recorded run as well. -/
theorem along_record {R : S → E → Prop} {s : S} {es : List E} (past : List E) :
    Along (fun x e => R x.1 e) (record step) (s, past) es ↔ Along R step s es := by
  induction es generalizing s past with
  | nil => exact Iff.rfl
  | cons e es ih =>
    refine and_congr Iff.rfl ?_
    cases hu : step s e with
    | none => simp [record, hu]
    | some u => simpa [record, hu] using ih (past ++ [e])

end Transition
