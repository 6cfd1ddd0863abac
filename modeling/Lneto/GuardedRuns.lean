import Mathlib.Tactic.Common

/-!
Runs of a machine whose steps may fail, under a guard on every step.
A guard is checked in the state in which its event is taken, so a guarded
run is one whose environment behaves; invariants need only survive guarded
steps.
-/
theorem Lneto.ok_then {ε α β : Type} (a : α) (f : α → Except ε β) :
    (.ok a : Except ε α) >>= f = f a := rfl

namespace Lneto.GuardedRuns

variable {σ ε π : Type*}

/-- Take the events in order and stop at the first failure. -/
def exec (step : σ → ε → Except π σ) : σ → List ε → Except π σ
  | s, [] => .ok s
  | s, e :: es =>
    match step s e with
    | .error p => .error p
    | .ok s' => exec step s' es

/-- Every event meets the guard in the state in which it is taken. -/
def Guarded (step : σ → ε → Except π σ) (guard : σ → ε → Prop) : σ → List ε → Prop
  | _, [] => True
  | s, e :: es => guard s e ∧ ∀ s', step s e = .ok s' → Guarded step guard s' es

instance decidableGuarded (step : σ → ε → Except π σ) (guard : σ → ε → Prop)
    [∀ s e, Decidable (guard s e)] (s : σ) (es : List ε) : Decidable (Guarded step guard s es) :=
  match es with
  | [] => isTrue trivial
  | e :: es =>
    match hstep : step s e with
    | .error p =>
      decidable_of_iff (guard s e)
        ⟨fun h => ⟨h, fun s' hs => by rw [hstep] at hs; cases hs⟩, fun h => h.1⟩
    | .ok s' =>
      have := decidableGuarded step guard s' es
      decidable_of_iff (guard s e ∧ Guarded step guard s' es)
        ⟨fun h => ⟨h.1, fun t ht => by rw [hstep] at ht; cases ht; exact h.2⟩,
          fun h => ⟨h.1, h.2 s' hstep⟩⟩

/-- What must hold of a result is decided by looking at it. -/
instance decidableNext {r : Except π σ} {P : σ → Prop} [DecidablePred P] :
    Decidable (∀ s, r = .ok s → P s) :=
  match r with
  | .error _ => isTrue fun _ h => by cases h
  | .ok s => decidable_of_iff (P s) ⟨fun h t ht => by cases ht; exact h, fun h => h s rfl⟩

section
variable {step : σ → ε → Except π σ}

theorem exec_cons_ok {s s' : σ} {e : ε} {es : List ε}
    (h : exec step s (e :: es) = .ok s') : ∃ t, step s e = .ok t ∧ exec step t es = .ok s' := by
  simp only [exec] at h
  cases hstep : step s e with
  | error p =>
    rw [hstep] at h
    cases h
  | ok t =>
    rw [hstep] at h
    exact ⟨t, rfl, h⟩

/-- An invariant of the guarded steps holds in every state a guarded run reaches. -/
theorem exec_invariant {guard : σ → ε → Prop} {I : σ → Prop}
    (hstep : ∀ s e s', I s → guard s e → step s e = .ok s' → I s') :
    ∀ (es : List ε) (s s' : σ), I s → Guarded step guard s es → exec step s es = .ok s' → I s' := by
  intro es
  induction es with
  | nil =>
    intro s s' hI _ h
    cases h
    exact hI
  | cons e es ih =>
  intro s s' hI hg h
  obtain ⟨t, ht, hrest⟩ := exec_cons_ok h
  exact ih t s' (hstep s e t hI hg.1 ht) (hg.2 t ht) hrest

/-- If guarded steps succeed under an invariant and keep it, so do guarded runs. -/
theorem exec_safe {guard : σ → ε → Prop} {I : σ → Prop}
    (hstep : ∀ s e, I s → guard s e → ∃ s', step s e = .ok s' ∧ I s') :
    ∀ (es : List ε) (s : σ), I s → Guarded step guard s es →
      ∃ s', exec step s es = .ok s' ∧ I s' := by
  intro es
  induction es with
  | nil =>
    intro s hI _
    exact ⟨s, rfl, hI⟩
  | cons e es ih =>
  intro s hI hg
  obtain ⟨t, ht, hIt⟩ := hstep s e hI hg.1
  obtain ⟨s', hrun, hI'⟩ := ih t hIt (hg.2 t ht)
  exact ⟨s', by simp only [exec, ht, hrun], hI'⟩

theorem guarded_congr {guard guard' : σ → ε → Prop}
    (h : ∀ s e, guard s e ↔ guard' s e) : ∀ (es : List ε) (s : σ),
      Guarded step guard s es ↔ Guarded step guard' s es := by
  have hguard : guard = guard' := by
    funext s e
    exact propext (h s e)
  intro es s
  rw [hguard]

theorem guarded_left {guard : σ → ε → Prop} {es es' : List ε} :
    ∀ {s : σ}, Guarded step guard s (es ++ es') → Guarded step guard s es := by
  induction es with
  | nil =>
    intro s _
    trivial
  | cons e es ih =>
    intro s hg
    exact ⟨hg.1, fun s' hs' => ih (hg.2 s' hs')⟩

theorem exec_append (es es' : List ε) : ∀ {s t : σ},
    exec step s es = .ok t → exec step s (es ++ es') = exec step t es' := by
  induction es with
  | nil =>
    intro s t h
    cases h
    rfl
  | cons e es ih =>
  intro s t h
  obtain ⟨u, hu, hrest⟩ := exec_cons_ok h
  simp only [List.cons_append, exec, hu]
  exact ih hrest

theorem exists_exec {s : σ} {es : List ε} {P : σ → Prop}
    [DecidablePred P] (h : ((exec step s es).toOption.any fun t => decide (P t))) :
    ∃ t, exec step s es = .ok t ∧ P t := by
  cases hrun : exec step s es with
  | error p => simp [hrun, Except.toOption] at h
  | ok t =>
    refine ⟨t, rfl, ?_⟩
    simpa [hrun, Except.toOption] using h

end

theorem guarded_true (step : σ → ε → Except π σ) : ∀ (es : List ε) (s : σ),
    Guarded step (fun _ _ => True) s es := by
  intro es
  induction es with
  | nil =>
    intro s
    exact trivial
  | cons e es ih =>
    intro s
    exact ⟨trivial, fun s' _ => ih s'⟩

theorem exec_always {step : σ → ε → Except π σ} {I : σ → Prop}
    (hstep : ∀ s e s', I s → step s e = .ok s' → I s') (es : List ε) (s s' : σ) (hI : I s)
    (hrun : exec step s es = .ok s') : I s' :=
  exec_invariant (fun t e t' ht _ hs => hstep t e t' ht hs) es s s' hI (guarded_true step es s) hrun

theorem map_ok {α β π : Type} {x : Except π α} {f : α → β} {b : β} (h : x.map f = .ok b) :
    ∃ a, x = .ok a ∧ f a = b := by
  cases x with
  | error p => cases h
  | ok a => exact ⟨a, rfl, Except.ok.inj h⟩

theorem map_fst_ok {α β π : Type} {x : Except π (α × β)} {a : α} (h : x.map Prod.fst = .ok a) :
    ∃ b, x = .ok (a, b) := by
  obtain ⟨⟨_, b⟩, hx, rfl⟩ := map_ok h
  exact ⟨b, hx⟩

theorem ok_bind {α β π : Type} {x : Except π α} {f : α → Except π β} {b : β}
    (h : x >>= f = .ok b) : ∃ a, x = .ok a ∧ f a = .ok b := by
  cases x with
  | error p => cases h
  | ok a => exact ⟨a, rfl, h⟩

theorem ok_observe {α β π : Type} {x : Except π α} {f : α → β} {a : α} {b : β} (hx : x = .ok a)
    (h : x.toOption.map f = some b) : f a = b := by
  rw [hx] at h
  exact Option.some.inj h

end Lneto.GuardedRuns
