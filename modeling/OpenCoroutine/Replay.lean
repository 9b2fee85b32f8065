import OpenCoroutine.Transition

/-! Systems whose steps return something, and systems whose steps emit events under keys.

The results of a run are those of another system if each step returns the same in both and
leaves states that correspond. Under each key there is a small machine that hears the events of
that key. A system refines these machines if each of its steps moves them as the event says, if
it emits one, and leaves the others alone. -/

namespace Replay

open Transition

variable {σ α κ ε τ : Type*}

/-- What the steps of a run return, and what the run leaves. -/
def outputs {ω : Type*} (exec : σ → α → Option (ω × σ)) : σ → List α → Option (List ω × σ)
  | s, [] => some ([], s)
  | s, a :: as => (exec s a).bind fun (o, t) =>
      (outputs exec t as).map fun (os, u) => (o :: os, u)

/-- Steps that are allowed, and possible in both systems or in neither, agree on a whole run. -/
theorem outputs_eq {ω ρ : Type*} {exec : σ → α → Option (ω × σ)} {exec' : ρ → α → Option (ω × ρ)}
    (f : σ → ρ) {ok : σ → α → Prop} {inv : σ → Prop}
    (hstep : ∀ s a, inv s → ok s a →
      (exec s a).map (fun (o, t) => (o, f t)) = exec' (f s) a ∧
        ∀ o t, exec s a = some (o, t) → inv t)
    {s : σ} (hs : inv s) {as : List α}
    (h : Guarded (fun s a => (exec s a).map Prod.snd) ok s as) :
    (outputs exec s as).map (fun (os, t) => (os, f t)) = outputs exec' (f s) as ∧
      ∀ os t, outputs exec s as = some (os, t) → inv t := by
  induction as generalizing s with
  | nil =>
    refine ⟨rfl, fun os t ht => ?_⟩
    cases ht
    exact hs
  | cons a as ih =>
    obtain ⟨hsame, hinv⟩ := hstep s a hs h.1
    rw [outputs, outputs, ← hsame]
    cases he : exec s a with
    | none => exact ⟨rfl, nofun⟩
    | some r =>
      obtain ⟨o, t⟩ := r
      obtain ⟨hrest, hend⟩ := ih (hinv o t he) (h.2 t (congrArg (Option.map Prod.snd) he))
      simp only [Option.bind_some, Option.map_some, ← hrest, Option.map_map]
      refine ⟨rfl, fun os u hu => ?_⟩
      obtain ⟨⟨os', u'⟩, hrun, heq⟩ := Option.map_eq_some_iff.1 hu
      cases heq
      exact hend os' u' hrun

structure Recorded (σ κ ε : Type*) where
  state : σ
  log : List (κ × ε) := []

def step (next : σ → α → Option σ) (emit : σ → α → Option (κ × ε)) (s : Recorded σ κ ε) (a : α) :
    Option (Recorded σ κ ε) :=
  (next s.state a).map fun t => ⟨t, s.log ++ (emit s.state a).toList⟩

def replay (hear : τ → ε → Option τ) : τ → List ε → Option τ
  | x, [] => some x
  | x, e :: es => (hear x e).bind fun y => replay hear y es

theorem replay_append (hear : τ → ε → Option τ) (x : τ) (es es' : List ε) :
    replay hear x (es ++ es') = (replay hear x es).bind fun y => replay hear y es' := by
  induction es generalizing x with
  | nil => rfl
  | cons e es ih =>
    rw [List.cons_append, replay, replay, Option.bind_assoc]
    exact congrArg _ (funext ih)

theorem replay_single (hear : τ → ε → Option τ) (x : τ) (e : ε) :
    replay hear x [e] = hear x e := by
  rw [replay]
  cases hear x e with
  | none => rfl
  | some y => rfl

variable [DecidableEq κ]

def events (k : κ) (log : List (κ × ε)) : List ε := (log.filter fun e => e.1 = k).map Prod.snd

theorem events_append (k : κ) (log log' : List (κ × ε)) :
    events k (log ++ log') = events k log ++ events k log' := by
  rw [events, List.filter_append, List.map_append]
  rfl

theorem events_self (k : κ) (e : ε) : events k [(k, e)] = [e] := by
  simp [events]

theorem events_ne {k k' : κ} (h : k' ≠ k) (e : ε) : events k [(k', e)] = [] := by
  simp [events, h]

/-- The step from `s` to `t` moves the machines as the event says. `stage s k x` says that the
machine under `k` is in `x`. -/
def Moves (hear : τ → ε → Option τ) (stage : σ → κ → τ → Prop) (s t : σ) (e : Option (κ × ε)) :
    Prop :=
  ∀ k x, stage s k x → ∃ y, replay hear x (events k e.toList) = some y ∧ stage t k y

variable {hear : τ → ε → Option τ} {stage : σ → κ → τ → Prop} {s t : σ}

theorem Moves.silent (h : ∀ k x, stage s k x → stage t k x) : Moves hear stage s t none :=
  fun k x hx => ⟨x, rfl, h k x hx⟩

theorem Moves.at {k : κ} {e : ε} (hself : ∀ x, stage s k x → ∃ y, hear x e = some y ∧ stage t k y)
    (hothers : ∀ k', k' ≠ k → ∀ x, stage s k' x → stage t k' x) :
    Moves hear stage s t (some (k, e)) := by
  intro k' x hx
  by_cases hk : k' = k
  · subst hk
    obtain ⟨y, hy, ht⟩ := hself x hx
    refine ⟨y, ?_, ht⟩
    show replay hear x (events k' [(k', e)]) = some y
    rw [events_self, replay_single, hy]
  · refine ⟨x, ?_, hothers k' hk x hx⟩
    show replay hear x (events k' [(k, e)]) = some x
    rw [events_ne (Ne.symm hk)]
    rfl

/-- What every step of a run moves, the log of the run replays. -/
theorem replays {next : σ → α → Option σ} {emit : σ → α → Option (κ × ε)} {ok : σ → α → Prop}
    {inv : σ → Prop} (hinv : ∀ s a t, inv s → ok s a → next s a = some t → inv t)
    (hmoves : ∀ s a t, inv s → ok s a → next s a = some t → Moves hear stage s t (emit s a))
    {s₀ s : Recorded σ κ ε} {x₀ : τ} (h₀ : inv s₀.state) (hlog : s₀.log = [])
    (hstart : ∀ k, stage s₀.state k x₀)
    (h : Reaches (step next emit) (fun s a => ok s.state a) s₀ s) :
    ∀ k, ∃ x, replay hear x₀ (events k s.log) = some x ∧ stage s.state k x := by
  have hall : inv s.state ∧ ∀ k, ∃ x, replay hear x₀ (events k s.log) = some x ∧ stage s.state k x := by
    refine h.invariant (p := fun s => inv s.state ∧
      ∀ k, ∃ x, replay hear x₀ (events k s.log) = some x ∧ stage s.state k x) ?_ ?_
    · refine ⟨h₀, fun k => ⟨x₀, ?_, hstart k⟩⟩
      rw [hlog]
      rfl
    · rintro s a t ⟨hi, hx⟩ hok hs
      obtain ⟨t, ht, rfl⟩ := Option.map_eq_some_iff.1 hs
      refine ⟨hinv _ _ _ hi hok ht, fun k => ?_⟩
      obtain ⟨x, hreplay, hstage⟩ := hx k
      obtain ⟨y, hy, hstage⟩ := hmoves _ _ _ hi hok ht k x hstage
      refine ⟨y, ?_, hstage⟩
      rw [events_append, replay_append, hreplay]
      exact hy
  exact hall.2

end Replay
