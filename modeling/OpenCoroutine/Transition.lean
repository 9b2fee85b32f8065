import Mathlib.Data.Option.Basic

/-! Labelled transition systems given by a partial step function. All the choices a
run makes (who moves, what the environment answers) stand in its labels, so a run
is a list of labels and can be evaluated. -/

namespace Transition

variable {σ τ α β : Type*}

def run (step : σ → α → Option σ) : σ → List α → Option σ
  | s, [] => some s
  | s, a :: as => (step s a).bind fun t => run step t as

def Guarded (step : σ → α → Option σ) (ok : σ → α → Prop) : σ → List α → Prop
  | _, [] => True
  | s, a :: as => ok s a ∧ ∀ t, step s a = some t → Guarded step ok t as

/-- The states reached from `s₀` by steps that all satisfy `ok`. -/
inductive Reaches (step : σ → α → Option σ) (ok : σ → α → Prop) (s₀ : σ) : σ → Prop where
  | start : Reaches step ok s₀ s₀
  | next {s t : σ} {a : α} :
      Reaches step ok s₀ s → ok s a → step s a = some t → Reaches step ok s₀ t

def Free (_ : σ) (_ : α) : Prop := True

variable {step : σ → α → Option σ} {ok : σ → α → Prop} {s₀ s t : σ}

/-- What holds at the start and is kept by every allowed step holds of every state
reached. -/
theorem Reaches.invariant {p : σ → Prop} (h : Reaches step ok s₀ s) (h₀ : p s₀)
    (hstep : ∀ s a t, p s → ok s a → step s a = some t → p t) : p s := by
  induction h with
  | start => exact h₀
  | next _ hok hs ih => exact hstep _ _ _ ih hok hs

theorem Reaches.trans (h : Reaches step ok s₀ s) (h' : Reaches step ok s t) :
    Reaches step ok s₀ t := by
  induction h' with
  | start => exact h
  | next _ ha hs ih => exact ih.next ha hs

theorem Reaches.single {a : α} (ha : ok s a) (hs : step s a = some t) : Reaches step ok s t :=
  Reaches.start.next ha hs

/-- A list of labels that can be evaluated and is allowed throughout is a run. -/
theorem Reaches.of_run (as : List α) (h : run step s as = some t)
    (hok : Guarded step ok s as) : Reaches step ok s t := by
  induction as generalizing s with
  | nil =>
    simp only [run, Option.some.injEq] at h
    exact h ▸ .start
  | cons a as ih =>
    simp only [run, Option.bind_eq_some_iff] at h
    obtain ⟨r, hr, hrun⟩ := h
    exact (Reaches.single hok.1 hr).trans (ih hrun (hok.2 r hr))

def runGuarded (step : σ → α → Option σ) (ok : σ → α → Prop) [∀ s a, Decidable (ok s a)] :
    σ → List α → Option σ
  | s, [] => some s
  | s, a :: as => if ok s a then (step s a).bind fun t => runGuarded step ok t as else none

theorem Reaches.of_runGuarded [∀ s a, Decidable (ok s a)] (as : List α)
    (h : runGuarded step ok s as = some t) : Reaches step ok s t := by
  induction as generalizing s with
  | nil =>
    simp only [runGuarded, Option.some.injEq] at h
    exact h ▸ .start
  | cons a as ih =>
    simp only [runGuarded, Option.ite_none_right_eq_some, Option.bind_eq_some_iff] at h
    obtain ⟨hok, r, hr, hrun⟩ := h
    exact (Reaches.single hok hr).trans (ih hrun)

theorem Guarded.of_runGuarded [∀ s a, Decidable (ok s a)] {as : List α}
    (h : runGuarded step ok s as = some t) : Guarded step ok s as := by
  induction as generalizing s with
  | nil => trivial
  | cons a as ih =>
    simp only [runGuarded, Option.ite_none_right_eq_some, Option.bind_eq_some_iff] at h
    obtain ⟨hok, r, hr, hrun⟩ := h
    refine ⟨hok, fun t ht => ?_⟩
    rw [hr] at ht
    cases ht
    exact ih hrun

theorem Guarded.of_forall (hok : ∀ s a, ok s a) (as : List α) : Guarded step ok s as := by
  induction as generalizing s with
  | nil => trivial
  | cons a as ih => exact ⟨hok s a, fun t _ => ih⟩

theorem guarded_free (as : List α) : Guarded step Free s as :=
  .of_forall (fun _ _ => trivial) as

/-- Where an invariant holds a condition gives a weaker one, if steps that meet it keep the
invariant. -/
theorem Guarded.imp {ok' : σ → α → Prop} (inv : σ → Prop)
    (hstep : ∀ s a t, inv s → ok s a → step s a = some t → inv t)
    (himp : ∀ s a, inv s → ok s a → ok' s a) (h₀ : inv s) {as : List α}
    (h : Guarded step ok s as) : Guarded step ok' s as := by
  induction as generalizing s with
  | nil => trivial
  | cons a as ih =>
    exact ⟨himp s a h₀ h.1, fun t ht => ih (hstep s a t h₀ h.1 ht) (h.2 t ht)⟩

/-- Two conditions that agree where an invariant holds are met by the same runs, if steps
that meet them keep the invariant. -/
theorem guarded_iff {ok' : σ → α → Prop} (inv : σ → Prop)
    (hstep : ∀ s a t, inv s → ok s a → step s a = some t → inv t)
    (hiff : ∀ s a, inv s → (ok s a ↔ ok' s a)) (h₀ : inv s) (as : List α) :
    Guarded step ok s as ↔ Guarded step ok' s as :=
  ⟨fun h => h.imp inv hstep (fun s a hi => (hiff s a hi).1) h₀,
    fun h => h.imp inv (fun s a t hi ha => hstep s a t hi ((hiff s a hi).2 ha))
      (fun s a hi => (hiff s a hi).2) h₀⟩

/-- A system whose every step is matched by a run of another one, through a map of
the states, reaches only states that map to states the other one reaches. -/
theorem Reaches.simulate {step' : τ → β → Option τ} {ok'' : τ → β → Prop} (f : σ → τ)
    (h : Reaches step ok s₀ s)
    (hsim : ∀ s a t, ok s a → step s a = some t → Reaches step' ok'' (f s) (f t)) :
    Reaches step' ok'' (f s₀) (f s) := by
  induction h with
  | start => exact .start
  | next _ ha hs ih => exact ih.trans (hsim _ _ _ ha hs)

end Transition
