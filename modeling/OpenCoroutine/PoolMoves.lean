import OpenCoroutine.Accounting
import OpenCoroutine.Resumption

/-! An infinite run of the pools as one of their schedulers. A step of the pools is up to three
moves of the schedulers: the clock is read, a worker is submitted and the scheduler goes on. -/

namespace OpenCoroutine

open Descent Function Transition

namespace World

variable {ι θ : Type*} {n : Nat} {now : Nat → Nat}

theorem exists_pops {s : World ι θ n} {a : Act ι θ} {co : Co} (h : s.popped a = some co) :
    ∃ j, s.Pops a j ∧ ((s.sched j).ready.popFront s.queue).1 = some co := by
  cases a with
  | turn i =>
    rw [popped, Option.ite_none_right_eq_some] at h
    exact ⟨i, ⟨rfl, h.1⟩, h.2⟩
  | submit | tryResume | schedule | call | leave => cases h

theorem not_comes {s : World ι θ n} {a : Act ι θ} (ha : ∀ p, a ≠ .turn p) (p : ι) :
    ¬ s.Comes (some a) p := by
  rintro ⟨b, hb, hp, -⟩
  cases hb
  exact ha p hp

variable [DecidableEq ι] [DecidableEq θ]

/-- Two moves without a `pop_front`, after which the phases are as before. -/
def Prepares (now : Nat → Nat) (s s' : World ι θ n) : Prop :=
  ∃ w a₁ a₂, s.Moves now a₁ w ∧ w.Moves now a₂ s' ∧ (∀ j, ¬ s.Comes a₁ j) ∧ (∀ j, ¬ w.Comes a₂ j) ∧
    s'.phase = s.phase

theorem Prepares.refl (s : World ι θ n) : s.Prepares now s :=
  ⟨s, none, none, .inl rfl, .inl rfl, (fun _ h => by obtain ⟨b, hb, -⟩ := h; cases hb),
    (fun _ h => by obtain ⟨b, hb, -⟩ := h; cases hb), rfl⟩

theorem Prepares.tick (s : World ι θ n) : s.Prepares now s.tick :=
  ⟨s, none, none, .inl rfl, .inr rfl, (fun _ h => by obtain ⟨b, hb, -⟩ := h; cases hb),
    (fun _ h => by obtain ⟨b, hb, -⟩ := h; cases hb), rfl⟩

theorem Prepares.submit {s s' : World ι θ n} {i : ι} {uuid : String}
    (hnew : (s.sched i).name ++ "|" ++ uuid ∉ s.submitted)
    (hs : s.tick.step now (.submit i uuid true) = some s') : s.Prepares now s' := by
  refine ⟨s.tick, none, some (.submit i uuid true), .inr rfl, ⟨fun _ => hnew, hs⟩, fun _ h => ?_,
    fun _ h => ?_, ?_⟩
  · obtain ⟨b, hb, -⟩ := h
    cases hb
  · obtain ⟨b, hb, hp, -⟩ := h
    cases hb
    cases hp
  · rw [step_submit, Option.some.injEq] at hs
    rw [← hs]
    rfl

end World

namespace Pools

variable {ι θ : Type*} {n : Nat} {now : Nat → Nat}

/-- The step is a `pop_front` of scheduler `p`. -/
def Pops (s : Pools ι θ n) (a : Act ι θ) (p : ι) : Prop :=
  (∃ uuid created, a = .turn p uuid created) ∧ (s.world.phase p).isPopping = true

variable [DecidableEq ι] [DecidableEq θ]

theorem grow_prepares {s s' : Pools ι θ n} {p : ι} {shouldGrow created grown : Bool} {uuid : String}
    (hnew : created = true → (s.world.sched p).name ++ "|" ++ uuid ∉ s.world.submitted)
    (h : s.grow now p shouldGrow uuid created = some (grown, s')) :
    s.world.Prepares now s'.world := by
  cases grows h with
  | stays => exact .refl _
  | fails => exact .tick _
  | grows hgrow hmax hw => exact .submit (hnew rfl) hw

theorem listen_prepares {s s' : Pools ι θ n} {t : θ} {co : Co} {result : CoroutineState Unit Unit}
    {created : Bool} {uuid : String}
    (hnew : created = true → ∀ q, (s.world.sched q).name ++ "|" ++ uuid ∉ s.world.submitted)
    (h : s.listen now t co result uuid created = some s') : s.world.Prepares now s'.world := by
  cases listens h with
  | passes => exact .refl _
  | grows hcurrent hresult hg => exact grow_prepares (fun hc => hnew hc _) hg
  | errs hcurrent hresult hg =>
    exact grow_prepares (s := s.decrement _ _ _) (fun hc => hnew hc _) hg

variable [Fintype ι]

/-- The moves that a step is made of. A `pop_front` is the last one, on the state as it was. -/
structure Makes (now : Nat → Nat) (s : Pools ι θ n) (a : Act ι θ) (s' : Pools ι θ n)
    (w : World ι θ n) (b : Option (World.Act ι θ)) : Prop where
  prepares : s.world.Prepares now w
  moves : w.Moves now b s'.world
  comes : ∀ p, w.Comes b p ↔ s.Pops a p
  same : ∀ p, s.Pops a p → w = s.world

omit [Fintype ι] in
theorem Makes.of_not {s s' : Pools ι θ n} {a : Act ι θ} {w : World ι θ n}
    {b : Option (World.Act ι θ)} (hprepares : s.world.Prepares now w)
    (hmoves : w.Moves now b s'.world) (hcomes : ∀ p, ¬ w.Comes b p) (hpops : ∀ p, ¬ s.Pops a p) :
    Makes now s a s' w b where
  prepares := hprepares
  moves := hmoves
  comes p := iff_of_false (hcomes p) (hpops p)
  same p hp := absurd hp (hpops p)

omit [Fintype ι] in
/-- A step in which no scheduler goes on, but the clock may be read. -/
theorem Makes.rests {s s' : Pools ι θ n} {a : Act ι θ}
    (hworld : s'.world = s.world ∨ s'.world = s.world.tick) (hpops : ∀ p, ¬ s.Pops a p) :
    ∃ w b, Makes now s a s' w b := by
  refine ⟨s.world, none, .of_not (.refl _) hworld (fun p h => ?_) hpops⟩
  obtain ⟨b, hb, -⟩ := h
  cases hb

omit [DecidableEq ι] [DecidableEq θ] [Fintype ι] in
theorem not_pops {s : Pools ι θ n} {a : Act ι θ}
    (ha : ∀ p uuid created, a ≠ .turn p uuid created) (p : ι) : ¬ s.Pops a p := by
  rintro ⟨⟨uuid, created, rfl⟩, -⟩
  exact ha p uuid created rfl

theorem step_makes {s s' : Pools ι θ n} {a : Act ι θ} (hok : s.Homed now a)
    (hs : s.step now a = some s') : ∃ w b, Makes now s a s' w b := by
  cases a with
  | submit | tryGetResult | changeState | setMinSize | setMaxSize | setKeepAliveTime =>
    simp only [Pools.step, Option.some.injEq] at hs
    exact Makes.rests (.inl (hs ▸ rfl)) (not_pops fun _ _ _ h => by cases h)
  | tryRun p =>
    refine Makes.rests (.inl ?_) (not_pops fun _ _ _ h => by cases h)
    obtain rfl | ⟨taskQueue, results, rfl⟩ := step_tryRun hs <;> rfl
  | tryResume p coName =>
    obtain ⟨world, hw, rfl⟩ := lift_eq hs
    exact ⟨s.world, some (.tryResume p coName), .of_not (.refl _) ⟨trivial, hw⟩
      (World.not_comes fun _ h => by cases h) (not_pops fun _ _ _ h => by cases h)⟩
  | schedule p t timeoutTime uuid created =>
    have hno := not_pops (s := s) (a := .schedule p t timeoutTime uuid created)
      fun _ _ _ h => by cases h
    cases (step_schedule hs).2 with
    | already => exact Makes.rests (.inl rfl) hno
    | fails hg =>
      cases grows hg with
      | fails => exact Makes.rests (.inr rfl) hno
    | starts hg hl =>
      obtain ⟨world, hw, rfl⟩ := lift_eq hl
      have hprepares : s.world.Prepares now _ := grow_prepares
        (s := (s.setPool p { s.pool p with scheduling := true }).setStack t (p :: s.stack t)) hok hg
      exact ⟨_, some (.schedule p t timeoutTime), .of_not hprepares ⟨trivial, hw⟩
        (World.not_comes fun _ h => by cases h) hno⟩
  | turn p uuid created =>
    rcases step_turn hs with ⟨t, timeoutTime, co, result, s₁, hp, hl, ha⟩ | ⟨-, ha⟩
    · obtain ⟨world, hw, hends⟩ := advance_cases ha
      have hworld : s'.world = world := by
        obtain rfl | ⟨t, -, -, rfl⟩ := hends
        · rfl
        · rfl
      have hprepares := listen_prepares hok.1 hl
      obtain ⟨w, a₁, a₂, h₁, h₂, hno₁, hno₂, hphase⟩ := hprepares
      refine ⟨s₁.world, some (.turn p), .of_not ⟨w, a₁, a₂, h₁, h₂, hno₁, hno₂, hphase⟩
        ⟨trivial, hworld ▸ hw⟩ (fun q hc => ?_) fun q hq => ?_⟩
      · obtain ⟨b, hb, hpq, hpopping⟩ := hc
        cases hb
        cases hpq
        rw [hphase, hp] at hpopping
        cases hpopping
      · obtain ⟨⟨uuid', created', he⟩, hpopping⟩ := hq
        cases he
        rw [hp] at hpopping
        cases hpopping
    · obtain ⟨world, hw, hends⟩ := advance_cases ha
      have hworld : s'.world = world := by
        obtain rfl | ⟨t, -, -, rfl⟩ := hends
        · rfl
        · rfl
      refine ⟨s.world, some (.turn p), .refl _, ⟨trivial, hworld ▸ hw⟩, fun q => ⟨fun hc => ?_,
        fun hq => ?_⟩, fun _ _ => rfl⟩
      · obtain ⟨b, hb, hpq, hpopping⟩ := hc
        cases hb
        cases hpq
        exact ⟨⟨uuid, created, rfl⟩, hpopping⟩
      · obtain ⟨⟨uuid', created', he⟩, hpopping⟩ := hq
        cases he
        exact ⟨_, rfl, rfl, hpopping⟩
  | call p k =>
    obtain ⟨t, timeoutTime, co, w, -, -, -, hl⟩ := step_call hs
    obtain ⟨world, hw, rfl⟩ := lift_eq hl
    exact ⟨s.world, some (.call p k), .of_not (.refl _) ⟨trivial, hw⟩
      (World.not_comes fun _ h => by cases h) (not_pops fun _ _ _ h => by cases h)⟩
  | leave p o =>
    obtain ⟨t, timeoutTime, co, w, pc, -, -, -, hl⟩ := step_leave hs
    obtain ⟨world, hw, rfl⟩ := lift_eq hl
    exact ⟨s.world, some (.leave p o), .of_not (.refl _) ⟨hok, hw⟩
      (World.not_comes fun _ h => by cases h) (not_pops fun _ _ _ h => by cases h)⟩
  | work p =>
    have hno := not_pops (s := s) (a := .work p) fun _ _ _ h => by cases h
    obtain ⟨t, timeoutTime, co, w, hr, hw, hs⟩ := step_work hs
    cases works hs with
    | noPool | findsNone | takes | clashes | finishes | wakes => exact Makes.rests (.inl rfl) hno
    | waits => exact Makes.rests (.inr rfl) hno
    | @recycled q s' hpc hrec hl =>
      obtain ⟨world, hworld, rfl⟩ := lift_eq hl
      have hmem : co ∈ s.recycled now p := by
        simp only [recycled, hr, Option.bind_some, hw, hpc, hrec, if_true]
        rfl
      refine ⟨s.world.tick, some (.leave p (.returns ())), .of_not (.tick _)
        ⟨fun r hr' => ?_, hworld⟩ (World.not_comes fun _ h => by cases h) hno⟩
      have hr₁ : s.world.running p = some r := hr'
      rw [hr, Option.some.injEq] at hr₁
      exact hr₁ ▸ (hok co hmem).2

/-- An infinite run. -/
structure Runs (now : Nat → Nat) (σ : Nat → Pools ι θ n) (act : Nat → Act ι θ) : Prop where
  step : ∀ i, (σ i).step now (act i) = some (σ (i + 1))
  homed : ∀ i, (σ i).Homed now (act i)

variable {σ : Nat → Pools ι θ n} {act : Nat → Act ι θ}

theorem Runs.invariant (h : Runs now σ act) {p : Pools ι θ n → Prop} (h₀ : p (σ 0))
    (hstep : ∀ s a s', p s → s.Homed now a → s.step now a = some s' → p s') (i : Nat) :
    p (σ i) := by
  induction i with
  | zero => exact h₀
  | succ i ih => exact hstep _ _ _ ih (h.homed i) (h.step i)

/-- On an infinite run on which every scheduler comes to `pop_front` again and again, a worker that
waits for a scheduler is resumed. -/
theorem Runs.popped (hmono : Monotone now) (h : Runs now σ act) (h₀ : (σ 0).world.Initial)
    (htidy : (σ 0).world.Tidy) (hfair : ∀ p, Recurs fun i => (σ i).Pops (act i) p) {i : Nat} {p : ι}
    {coName : String} {time reading : Nat} (hreach : time ≤ now reading)
    (hw : ((σ i).world.view p).Waits coName time) :
    ∃ i', i ≤ i' ∧ ∃ q co, (σ i').Pops (act i') q ∧
      (((σ i').world.sched q).ready.popFront (σ i').world.queue).1 = some co ∧ co.name = coName := by
  choose w b hmakes using fun i => step_makes (h.homed i) (h.step i)
  choose w₁ a₁ a₂ h₁ h₂ hno₁ hno₂ hphase using fun i => (hmakes i).prepares
  obtain ⟨f, hf⟩ : ∃ f, f = fun i => trio (σ i).world (w₁ i) (w i) := ⟨_, rfl⟩
  obtain ⟨g, hg⟩ : ∃ g, g = fun i => trio (a₁ i) (a₂ i) (b i) := ⟨_, rfl⟩
  have hlasts : World.Lasts now (thrice f) (thrice g) := by
    rw [hf, hg]
    exact thrice_moves (R := World.Moves now) fun i => ⟨h₁ i, h₂ i, (hmakes i).moves⟩
  have hfirst : ∀ i, thrice f (3 * i + 0) = (σ i).world := fun i => by
    rw [thrice_eq f i (by decide : 0 < 3), hf]
    rfl
  have hlast : ∀ i, thrice f (3 * i + 2) = w i ∧ thrice g (3 * i + 2) = b i := fun i => by
    rw [thrice_eq f i (by decide : 2 < 3), thrice_eq g i (by decide : 2 < 3), hf, hg]
    exact ⟨rfl, rfl⟩
  have hcomes : ∀ p, Recurs fun k => (thrice f k).Comes (thrice g k) p := by
    intro p k
    obtain ⟨i, hi, hp⟩ := hfair p k
    have hcome := ((hmakes i).comes p).2 hp
    rw [← (hlast i).1, ← (hlast i).2] at hcome
    exact ⟨3 * i + 2, by omega, hcome⟩
  obtain ⟨k, hk, co, hpop, hname⟩ := hlasts.popped hmono (hfirst 0 ▸ h₀) (hfirst 0 ▸ htidy) hcomes
    hreach (hfirst i ▸ hw)
  obtain ⟨a, ha, hpop⟩ := Option.bind_eq_some_iff.1 hpop
  obtain ⟨q, hq, hco⟩ := World.exists_pops hpop
  have hcome : (thrice f k).Comes (thrice g k) q := ⟨a, ha, hq⟩
  obtain ⟨i', rfl | rfl | rfl⟩ := exists_thrice k
  · rw [hfirst, thrice_eq g i' (by decide : 0 < 3), hg] at hcome
    exact absurd hcome (hno₁ i' q)
  · rw [thrice_eq f i' (by decide : 1 < 3), thrice_eq g i' (by decide : 1 < 3), hf, hg] at hcome
    exact absurd hcome (hno₂ i' q)
  · rw [(hlast i').1, (hlast i').2] at hcome
    have hpops := ((hmakes i').comes q).1 hcome
    rw [(hlast i').1, (hmakes i').same q hpops] at hco
    exact ⟨i', by omega, q, co, hpops, hco, hname⟩

end Pools

end OpenCoroutine
