import Mathlib.Data.List.Basic
import Mathlib.Logic.Relation

/-!
# Runs of a partial transition function

A system is given by `step : σ → ε → Option σ` (no result: the event cannot
happen in that state, or handling it aborts the program). `Run step ok s₀ es s`
says that handling the events `es` in order leads from `s₀` to `s`, where every
event also meets `ok`, a condition on the state it is handled in. Conditions
that single out a class of runs go into `ok`, so that one induction rule
(`Run.invariant`) serves unconditional and conditional results alike.

`runs` computes the state a list of events leads to; `Run.of_runs` turns such a
computation into a run, which is how concrete runs are exhibited.
-/

namespace SiestaVR.Lib

variable {σ ε : Type}

/-- `es` leads from `s₀` to the last argument, every event meeting `ok`. -/
inductive Run (step : σ → ε → Option σ) (ok : σ → ε → Prop) (s₀ : σ) : List ε → σ → Prop
  | start : Run step ok s₀ [] s₀
  | snoc {es : List ε} {s s' : σ} {e : ε} :
      Run step ok s₀ es s → ok s e → step s e = some s' → Run step ok s₀ (es ++ [e]) s'

variable {step : σ → ε → Option σ} {ok ok' : σ → ε → Prop} {s₀ s : σ} {es : List ε}

/-- **Invariant rule**: what holds initially and is kept by every event that
meets `ok` holds in every state reached. The invariant may mention the events
handled so far. -/
theorem Run.invariant {P : List ε → σ → Prop} (h₀ : P [] s₀)
    (hstep : ∀ es s e s', P es s → ok s e → step s e = some s' → P (es ++ [e]) s')
    (h : Run step ok s₀ es s) : P es s := by
  induction h with
  | start => exact h₀
  | snoc _ hok hs ih => exact hstep _ _ _ _ ih hok hs

/-- The rule for an invariant of the state alone. -/
theorem Run.state_invariant {P : σ → Prop} (h₀ : P s₀)
    (hstep : ∀ s e s', P s → ok s e → step s e = some s' → P s')
    (h : Run step ok s₀ es s) : P s :=
  Run.invariant (P := fun _ s => P s) h₀ (fun _ s e s' hp => hstep s e s' hp) h

/-- A run under a stronger condition is a run under a weaker one. -/
theorem Run.mono (hok : ∀ s e, ok s e → ok' s e) (h : Run step ok s₀ es s) :
    Run step ok' s₀ es s := by
  induction h with
  | start => exact .start
  | snoc _ he hs ih => exact .snoc ih (hok _ _ he) hs

/-- The state a list of events leads to. -/
def runs (step : σ → ε → Option σ) : σ → List ε → Option σ
  | s, [] => some s
  | s, e :: es => (step s e).bind fun s' => runs step s' es

/-- Every event of the list meets `ok` in the state it is handled in. -/
def allOk (step : σ → ε → Option σ) (ok : σ → ε → Prop) : σ → List ε → Prop
  | _, [] => True
  | s, e :: es => ok s e ∧ ∀ s' ∈ step s e, allOk step ok s' es

instance decidableAllOk [∀ s e, Decidable (ok s e)] : ∀ s es, Decidable (allOk step ok s es)
  | _, [] => .isTrue True.intro
  | s, e :: es =>
    have := fun s' => decidableAllOk s' es
    inferInstanceAs (Decidable (ok s e ∧ ∀ s' ∈ step s e, allOk step ok s' es))

theorem Run.append_runs {es' : List ε} {s' : σ} (h : Run step ok s₀ es s)
    (hok : allOk step ok s es') (hs : runs step s es' = some s') :
    Run step ok s₀ (es ++ es') s' := by
  induction es' generalizing es s with
  | nil =>
    obtain rfl : s = s' := by simpa [runs] using hs
    simpa using h
  | cons e es' ih =>
    obtain ⟨s₁, h₁, h₂⟩ : ∃ s₁, step s e = some s₁ ∧ runs step s₁ es' = some s' := by
      simpa [runs, Option.bind_eq_some_iff] using hs
    have := ih (h.snoc hok.1 h₁) (hok.2 s₁ h₁) h₂
    simpa using this

/-- A computation of `runs` whose events meet `ok` is a run. -/
theorem Run.of_runs (hok : allOk step ok s₀ es) (hs : runs step s₀ es = some s) :
    Run step ok s₀ es s := by
  have h : Run step ok s₀ [] s₀ := .start
  simpa using h.append_runs hok hs

theorem runs_append (step : σ → ε → Option σ) (s : σ) (es es' : List ε) :
    runs step s (es ++ es') = (runs step s es).bind fun s' => runs step s' es' := by
  induction es generalizing s with
  | nil => rfl
  | cons e es ih =>
    rw [List.cons_append, runs, runs, Option.bind_assoc]
    exact congrArg _ (funext ih)

theorem allOk_true (step : σ → ε → Option σ) (s : σ) (es : List ε) :
    allOk step (fun _ _ => True) s es := by
  induction es generalizing s with
  | nil => trivial
  | cons e es ih => exact ⟨trivial, fun s' _ => ih s'⟩

theorem allOk_of_forall {step : σ → ε → Option σ} {ok : σ → ε → Prop} {es : List ε}
    (h : ∀ e ∈ es, ∀ s, ok s e) (s : σ) : allOk step ok s es := by
  induction es generalizing s with
  | nil => trivial
  | cons e es ih =>
    exact ⟨h e List.mem_cons_self s, fun s' _ => ih (fun e' he' => h e' (.tail e he')) s'⟩

theorem allOk.and (h : allOk step ok s₀ es) (h' : allOk step ok' s₀ es) :
    allOk step (fun s e => ok s e ∧ ok' s e) s₀ es := by
  induction es generalizing s₀ with
  | nil => trivial
  | cons e es ih => exact ⟨⟨h.1, h'.1⟩, fun s' hs' => ih (h.2 s' hs') (h'.2 s' hs')⟩

/-- Two conditions that agree wherever an invariant holds agree on whole lists of
events. -/
theorem allOk_congr {ok₀ : σ → ε → Prop} {P : σ → Prop}
    (hstep : ∀ s e s', P s → ok₀ s e → step s e = some s' → P s')
    (hiff : ∀ s e, P s → ok₀ s e → (ok s e ↔ ok' s e)) (h₀ : P s₀)
    (hok₀ : allOk step ok₀ s₀ es) : allOk step ok s₀ es ↔ allOk step ok' s₀ es := by
  induction es generalizing s₀ with
  | nil => exact Iff.rfl
  | cons e es ih =>
    refine and_congr (hiff s₀ e h₀ hok₀.1) (forall₂_congr fun s' hs' => ?_)
    exact ih (hstep s₀ e s' h₀ hok₀.1 hs') (hok₀.2 s' hs')

/-- **Progress rule**: if an invariant makes every event that meets `ok` possible and
is kept by it, then a list of events that all meet `ok` can be handled to its
end, and the invariant holds there. -/
theorem exists_runs {P : List ε → σ → Prop} (h₀ : P [] s₀)
    (hstep : ∀ es s e, P es s → ok s e → ∃ s', step s e = some s' ∧ P (es ++ [e]) s')
    (hok : allOk step ok s₀ es) : ∃ s, runs step s₀ es = some s ∧ P es s := by
  suffices h : ∀ (es' done : List ε) (s : σ), P done s → allOk step ok s es' →
      ∃ s', runs step s es' = some s' ∧ P (done ++ es') s' by
    simpa using h es [] s₀ h₀ hok
  intro es'
  induction es' with
  | nil =>
    intro done s hp _
    exact ⟨s, rfl, by simpa using hp⟩
  | cons e es' ih =>
    rintro done s hp ⟨he, hrest⟩
    obtain ⟨s₁, h₁, hp₁⟩ := hstep done s e hp he
    obtain ⟨s', h', hp'⟩ := ih (done ++ [e]) s₁ hp₁ (hrest s₁ h₁)
    refine ⟨s', ?_, by simpa using hp'⟩
    rw [runs, h₁, Option.bind_some, h']

/-- The system that remembers its history, for conditions that look back on it. -/
def traced (step : σ → ε → Option σ) (t : List ε × σ) (e : ε) : Option (List ε × σ) :=
  (step t.2 e).map fun s => (t.1 ++ [e], s)

theorem traced_eq_some {t t' : List ε × σ} {e : ε} :
    traced step t e = some t' ↔ step t.2 e = some t'.2 ∧ t'.1 = t.1 ++ [e] := by
  obtain ⟨es', s'⟩ := t'
  simp only [traced, Option.map_eq_some_iff, Prod.mk.injEq]
  constructor
  · rintro ⟨s, hs, h, rfl⟩
    exact ⟨hs, h.symm⟩
  · rintro ⟨hs, h⟩
    exact ⟨s', hs, h.symm, rfl⟩

/-- The invariant rule for conditions that look back on the history. -/
theorem Run.traced_invariant {ok : List ε × σ → ε → Prop} {P : List ε → σ → Prop} {t : List ε × σ}
    (h₀ : P [] s₀)
    (hstep : ∀ es s e s', P es s → ok (es, s) e → step s e = some s' → P (es ++ [e]) s')
    (h : Run (traced step) ok ([], s₀) es t) : t.1 = es ∧ P es t.2 := by
  refine Run.invariant (P := fun es t => t.1 = es ∧ P es t.2) ⟨rfl, h₀⟩ ?_ h
  rintro es ⟨es', s⟩ e ⟨es'', s'⟩ ⟨rfl, hp⟩ hok hs
  obtain ⟨hs', rfl⟩ := traced_eq_some.1 hs
  exact ⟨rfl, hstep _ s e s' hp hok hs'⟩

/-- What an observer has noted after a list of events: it sees every event with the
state before and after it, and the system does not see the observer. -/
def observe {γ : Type} (step : σ → ε → Option σ) (watch : γ → σ → ε → σ → γ) :
    γ → σ → List ε → γ
  | g, _, [] => g
  | g, s, e :: es =>
    match step s e with
    | some s' => observe step watch (watch g s e s') s' es
    | none => g

theorem observe_singleton {γ : Type} {watch : γ → σ → ε → σ → γ} {s s' : σ} {e : ε}
    (hs : step s e = some s') (g : γ) : observe step watch g s [e] = watch g s e s' := by
  simp [observe, hs]

theorem Run.observe_append {γ : Type} {watch : γ → σ → ε → σ → γ} (h : Run step ok s₀ es s)
    (g : γ) (es' : List ε) :
    observe step watch g s₀ (es ++ es')
      = observe step watch (observe step watch g s₀ es) s es' := by
  induction h generalizing es' with
  | start => rfl
  | snoc _ _ hs ih =>
    rw [List.append_assoc, ih, ih [_], observe_singleton hs, List.singleton_append, observe, hs]

/-- The invariant rule for what an observer notes. -/
theorem Run.observe_invariant {γ : Type} {watch : γ → σ → ε → σ → γ} {P : γ → σ → Prop} {g : γ}
    (h₀ : P g s₀)
    (hstep : ∀ g s e s', P g s → ok s e → step s e = some s' → P (watch g s e s') s')
    (h : Run step ok s₀ es s) : P (observe step watch g s₀ es) s := by
  induction h with
  | start => exact h₀
  | snoc hrun hok hs ih =>
    rw [hrun.observe_append, observe_singleton hs]
    exact hstep _ _ _ _ ih hok hs

/-- The system with an observer beside it, for conditions that look at what it has noted. -/
def watched {γ : Type} (step : σ → ε → Option σ) (watch : γ → σ → ε → σ → γ) (t : γ × σ) (e : ε) :
    Option (γ × σ) :=
  (step t.2 e).map fun s => (watch t.1 t.2 e s, s)

theorem watched_eq_some {γ : Type} {watch : γ → σ → ε → σ → γ} {t t' : γ × σ} {e : ε} :
    watched step watch t e = some t' ↔ step t.2 e = some t'.2 ∧ t'.1 = watch t.1 t.2 e t'.2 := by
  obtain ⟨g', s'⟩ := t'
  simp only [watched, Option.map_eq_some_iff, Prod.mk.injEq]
  constructor
  · rintro ⟨s, hs, rfl, rfl⟩
    exact ⟨hs, rfl⟩
  · rintro ⟨hs, rfl⟩
    exact ⟨s', hs, rfl, rfl⟩

/-- What a computation shows of its final state, a run reaches. -/
theorem exists_run_of_map {β : Type} {f : σ → β} {b : β}
    (h : (runs step s₀ es).map f = some b) : ∃ s, Run step (fun _ _ => True) s₀ es s ∧ f s = b := by
  obtain ⟨s, hs, hf⟩ := Option.map_eq_some_iff.1 h
  exact ⟨s, .of_runs (allOk_true step s₀ es) hs, hf⟩

/-- A fold leaves alone what each of its steps leaves alone. -/
theorem foldl_view {α β : Type} (view : σ → β) {f : σ → α → σ}
    (hf : ∀ s a, view (f s a) = view s) (as : List α) (s : σ) :
    view (as.foldl f s) = view s :=
  List.foldlRecOn (motive := fun s' => view s' = view s) as f rfl
    fun s' h a _ => (hf s' a).trans h

end SiestaVR.Lib
