import OpenCoroutine.Driver
import OpenCoroutine.Lives

/-! Schedulers that come round to `pop_front` again and again. A coroutine that is ready is resumed
by one of them some time, whichever queue it is in and however often it is stolen, and so is one
that a timer delays until a time that the clock comes to. -/

namespace OpenCoroutine

open Descent Function Transition

namespace World

variable {ι θ : Type*} {n : Nat} {now : Nat → Nat} [DecidableEq ι] [DecidableEq θ]
  {σ : Nat → World ι θ n} {act : Nat → Option (Act ι θ)}

/-- The step resumes the coroutine at `spot`, or brings it nearer to the front. -/
def Advances (s s' : World ι θ n) (a : Option (Act ι θ)) (co : Co) (spot : Spot n) : Prop :=
  s.queue.At co spot →
    a.bind s.popped = some co ∨ ∃ spot', s'.queue.At co spot' ∧ spot'.rank < spot.rank

theorem Comes.advances_own {s s' : World ι θ n} {a : Option (Act ι θ)} {j : ι} (hc : s.Comes a j)
    (h : s.Moves now a s') (ht : (s.sched j).ready.nextTick.1 % 61 ≠ 0) (co : Co) (m : Nat) :
    s.Advances s' a co (.own (s.sched j).ready.queue m) := by
  obtain ⟨b, rfl, hp, hs⟩ := hc.moves h
  intro hx
  rw [Option.bind_some, hp.popped_eq, (hp.step hs).1]
  exact LocalQueue.popFront_own ht hx

theorem Comes.advances_shared {s s' : World ι θ n} {a : Option (Act ι θ)} {j : ι} (hc : s.Comes a j)
    (h : s.Moves now a s') (hwf : s.queue.WellFormed)
    (ht : (s.sched j).ready.nextTick.1 % 61 = 0) (co : Co) (m : Nat) :
    s.Advances s' a co (.shared m) := by
  obtain ⟨b, rfl, hp, hs⟩ := hc.moves h
  intro hx
  rw [Option.bind_some, hp.popped_eq, (hp.step hs).1]
  exact LocalQueue.popFront_shared hwf ht hx

theorem Lasts.called (h : Lasts now σ act) (j : ι) :
    LocalQueue.Called (fun i => ((σ i).sched j).ready) fun i => (σ i).Comes (act i) j where
  queue i := ((h i).handle j).1
  same i := ((h i).handle j).2.1
  tick i := ((h i).handle j).2.2

/-- Between two calls of `pop_front` a scheduler has looked at its timers. -/
theorem Lasts.looks (h : Lasts now σ act) {j : ι} (hfair : Recurs fun i => (σ i).Comes (act i) j) :
    Recurs fun i => ((σ i).phase j).isChecking = true ∧
      ((σ (i + 1)).phase j).isChecking = false ∧
      ((σ i).view j).checkReady now = (none, (σ (i + 1)).view j) := by
  refine hfair.enters (fun i => ((σ i).phase j).isPopping = true) (fun i hc => ?_)
    fun i hout hin => ?_
  · obtain ⟨b, -, hp, hs⟩ := hc.moves (h i)
    refine ⟨hp.2, ?_⟩
    rw [(hp.step hs).2.2]
    exact Bool.false_ne_true
  · cases (h i).rounds j with
    | keeps he =>
      rw [he] at hin
      exact absurd hin hout
    | passes hchecking hpopping | reads hpopping hr =>
      rw [hpopping] at hin
      cases hin
    | looks hp hchecking hv => exact ⟨hp, hchecking, hv⟩

/-- The clock is read again and again. -/
theorem Lasts.reaches (h : Lasts now σ act) {j : ι}
    (hfair : Recurs fun i => (σ i).Comes (act i) j) (reading : Nat) :
    ∃ i, reading ≤ (σ i).readings := by
  have hreads : Recurs fun i => (σ i).readings < (σ (i + 1)).readings := by
    refine (h.looks hfair).enters (fun i => ((σ i).phase j).isChecking = true) (fun i hi => ?_)
      fun i hout hin => ?_
    · refine ⟨hi.1, ?_⟩
      rw [hi.2.1]
      exact Bool.false_ne_true
    · cases (h i).rounds j with
      | keeps he =>
        rw [he] at hin
        exact absurd hin hout
      | passes hchecking hpopping | looks hp hchecking hv =>
        rw [hchecking] at hin
        cases hin
      | reads hpopping hr => exact hr
  exact hreads.unbounded (fun i => (h i).readings) (fun _ hr => hr) reading

variable [Fintype ι]

/-- A coroutine that a scheduler's timer delays becomes ready, or is resumed before. -/
theorem Lasts.becomes_ready (hmono : Monotone now) (h : Lasts now σ act)
    (hplaced : ∀ i, (σ i).Placed now) {j : ι} (hfair : Recurs fun i => (σ i).Comes (act i) j)
    {coName : String} {time reading : Nat} (hreach : time ≤ now reading) {i : Nat}
    (hw : ((σ i).view j).Waits coName time) :
    ∃ i', i ≤ i' ∧ ((∃ co, (act i').bind (σ i').popped = some co ∧ co.name = coName) ∨
      coName ∈ OpenCoroutine.names (σ (i' + 1)).queue.contents) := by
  obtain ⟨late, hlate⟩ := h.reaches hfair reading
  have hlater : Monotone fun i => (σ i).readings :=
    monotone_nat_of_le_succ fun i => (h i).readings
  refine eventually_done (fun i _ => ((σ i).view j).Waits coName time) (fun _ : Unit => (0 : Nat)) _
    (fun i _ hi => ?_) (fun _ i => ?_) (a := ()) hw
  · exact ((h i).waits hmono (hplaced i).sound hi).imp .inl fun hi' => ⟨(), hi', .inl rfl⟩
  · obtain ⟨k, hk, -, -, hlook⟩ := h.looks hfair (max i late)
    refine ⟨k, le_trans (le_max_left _ _) hk, fun hi => .inl (.inr ?_)⟩
    have hdue : time ≤ now (σ k).readings :=
      hreach.trans (hmono (hlate.trans (hlater (le_trans (le_max_right _ _) hk))))
    exact View.Waits.woken hmono ((hplaced k).sound.view j) hi hdue hlook

/-- A coroutine that is ready is resumed. -/
theorem Lasts.ready_resumed (h : Lasts now σ act) (htidy : ∀ i, (σ i).Tidy)
    (hunowned : ∀ i, (σ i).Unowned) (hfair : ∀ j, Recurs fun i => (σ i).Comes (act i) j) (j : ι)
    {i : Nat} {coName : String} (hready : coName ∈ OpenCoroutine.names (σ i).queue.contents) :
    ∃ i', i ≤ i' ∧ ∃ co, (act i').bind (σ i').popped = some co ∧ co.name = coName := by
  obtain ⟨co, hco, rfl⟩ := Multiset.mem_map.1 hready
  obtain ⟨spot, hspot⟩ := WorkStealQueue.exists_at hco
  have hpopped : ∃ i', i ≤ i' ∧ (act i').bind (σ i').popped = some co := by
    refine eventually_done (fun i spot => (σ i).queue.At co spot) Spot.rank
      (fun i => (act i).bind (σ i).popped = some co) (fun i spot hx => (h i).nears co spot hx)
      (fun spot => ?_) hspot
    cases spot with
    | own k m =>
      by_cases hk : ∃ j, ((σ 0).sched j).ready.queue = k
      · obtain ⟨j, rfl⟩ := hk
        intro i
        obtain ⟨i', hle, hc, ht⟩ := (h.called j).own_recurs (hfair j) i
        have hadv := hc.advances_own (h i') ht co m
        rw [(h.called j).queue_eq i'] at hadv
        exact ⟨i', hle, hadv⟩
      · -- no scheduler has this worker
        refine fun i => ⟨i, le_rfl, fun hx => ?_⟩
        have hnil := hunowned i k fun j hj => hk ⟨j, ((h.called j).queue_eq i).symm.trans hj⟩
        have hx' : ((σ i).queue.localQueues k).items[m]? = some co := hx
        rw [hnil] at hx'
        cases hx'
    | shared m =>
      intro i
      obtain ⟨i', hle, hc, ht⟩ := (h.called j).shared_recurs (hfair j) i
      exact ⟨i', hle, hc.advances_shared (h i') (htidy i').wf ht co m⟩
  obtain ⟨i', hle, hi'⟩ := hpopped
  exact ⟨i', hle, co, hi', rfl⟩

/-- Whatever else happens, what waits for a scheduler is resumed. -/
theorem Lasts.popped (hmono : Monotone now) (h : Lasts now σ act) (h₀ : (σ 0).Initial)
    (htidy : (σ 0).Tidy) (hfair : ∀ j, Recurs fun i => (σ i).Comes (act i) j) {i : Nat} {j : ι}
    {coName : String} {time reading : Nat} (hreach : time ≤ now reading)
    (hw : ((σ i).view j).Waits coName time) :
    ∃ i', i ≤ i' ∧ ∃ co, (act i').bind (σ i').popped = some co ∧ co.name = coName := by
  have hplaced := h.invariant h₀.placed fun _ _ _ hs hmove => hmove.placed hmono hs
  have htidies := h.invariant htidy fun _ _ _ hs hmove => hmove.tidy hs
  have hunowned : ∀ i, (σ i).Unowned := by
    refine h.invariant (fun k _ => ?_) fun _ _ _ hs hmove => hmove.unowned hs
    have hempty := (WorkStealQueue.empty_iff_contents.2 h₀.queue).2 k
    exact hempty
  obtain ⟨i', hle, hpop | hready⟩ := h.becomes_ready hmono hplaced (hfair j) hreach hw
  · exact ⟨i', hle, hpop⟩
  · obtain ⟨i'', hle', hpop⟩ := h.ready_resumed htidies hunowned hfair j hready
    exact ⟨i'', by omega, hpop⟩

variable (now) in
omit [DecidableEq ι] [DecidableEq θ] [Fintype ι] in
theorem heard_of_popped {s : World ι θ n} {a : Act ι θ} {co : Co} (h : s.popped a = some co) :
    ∃ j timeoutTime, s.heard now a = some (co.name, j, .onResume timeoutTime) := by
  cases a with
  | turn i =>
    rw [popped, Option.ite_none_right_eq_some] at h
    obtain ⟨hp, hco⟩ := h
    cases hphase : s.phase i with
    | popping t timeoutTime leftTime =>
      refine ⟨i, timeoutTime, ?_⟩
      simp only [heard, hphase, hco, Option.map_some]
    | idle | top | checking | resuming | returned =>
      rw [hphase] at hp
      cases hp
  | submit | tryResume | schedule | call | leave => cases h

/-- On an infinite run on which every scheduler comes to `pop_front` again and again, a coroutine
that is ready, or delayed by a timer until a time that the clock comes to, is resumed. -/
theorem resumed {act : Nat → Act ι θ} (hmono : Monotone now) (h₀ : (σ 0).Initial)
    (htidy : (σ 0).Tidy) (h : Runs now σ act) (hfair : ∀ j, Recurs fun i => (σ i).Pops (act i) j)
    {i : Nat} {j : ι} {coName : String} {time reading : Nat} (hreach : time ≤ now reading)
    (hw : ((σ i).view j).Waits coName time) :
    ∃ i', i ≤ i' ∧ ∃ k timeoutTime,
      (σ i').heard now (act i') = some (coName, k, .onResume timeoutTime) := by
  have hcomes : ∀ j, Recurs fun i => (σ i).Comes (some (act i)) j := fun j =>
    (hfair j).mono fun i hp => ⟨act i, rfl, hp⟩
  obtain ⟨i', hle, co, hpop, rfl⟩ := h.lasts.popped hmono h₀ htidy hcomes hreach hw
  obtain ⟨k, timeoutTime, hheard⟩ := heard_of_popped now hpop
  exact ⟨i', hle, k, timeoutTime, hheard⟩

/-- The one coroutine has delayed itself until 130. -/
theorem resumed_sleeper : ∃ (σ : Nat → World Unit Unit 1) (act : Nat → Act Unit Unit) (i : Nat),
    ((σ i).sched ()).suspend.elems.map (fun e => (e.1, e.2.name)) = [(130, "s|a")] ∧
      ∃ i', i ≤ i' ∧ ∃ k timeoutTime,
        (σ i').heard everyTwenty (act i') = some ("s|a", k, .onResume timeoutTime) := by
  have hmono : Monotone everyTwenty := fun a b hab => Nat.mul_le_mul_left 20 hab
  obtain ⟨s, h, hsleeper, hphase⟩ : ∃ s : World Unit Unit 1,
      runGuarded (step everyTwenty) Disciplined single asleepActs = some s ∧
        (s.sched ()).suspend.elems.map (fun e => (e.1, e.2.name)) = [(130, "s|a")] ∧
        (s.phase ()).co = 0 := ⟨_, rfl, rfl, rfl⟩
  have hplaced : s.Placed everyTwenty := (Reaches.of_runGuarded asleepActs h).invariant
    single_initial.placed fun _ _ _ hi hok hs => hi.step hmono hok hs
  have hdriven : s.Driven everyTwenty := by
    refine ⟨hplaced, fun t timeoutTime co hp => ?_⟩
    rw [hp] at hphase
    exact absurd hphase (Multiset.singleton_ne_zero co)
  obtain ⟨σ, act, hruns, hstart, hend, hrecurs⟩ := exists_runs hmono asleepActs h hdriven
  have hwaits : ((σ asleepActs.length).view ()).Waits "s|a" 130 := by
    have hm : (130, "s|a") ∈ (s.sched ()).suspend.elems.map fun e => (e.1, e.2.name) := by
      rw [hsleeper]
      exact List.mem_singleton_self _
    obtain ⟨⟨time, co⟩, he, heq⟩ := List.mem_map.1 hm
    rw [Prod.mk.injEq] at heq
    rw [hend]
    exact .inr (.inl ⟨co, heq.2, heq.1 ▸ he⟩)
  refine ⟨σ, act, asleepActs.length, by rw [hend]; exact hsleeper, ?_⟩
  exact resumed hmono (hstart ▸ single_initial) (hstart ▸ single_tidy) hruns (fun _ => hrecurs)
    (show 130 ≤ everyTwenty 7 by decide) hwaits

end World

end OpenCoroutine
