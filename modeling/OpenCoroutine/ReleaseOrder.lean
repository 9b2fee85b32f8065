import OpenCoroutine.Releases

/-! The order in which delayed coroutines are released. A run is kept together with the log of
what was inserted into each suspend list. With a clock that does not go back the coroutines
of one timestamp are in the list as long as none of them is due, in the order of the log,
and then they leave it together. -/

namespace OpenCoroutine

open Function Transition

def atTime (time : Nat) (l : List (Nat × Co)) : List (Nat × Co) := l.filter fun e => e.1 = time

theorem atTime_append (time : Nat) (l l' : List (Nat × Co)) :
    atTime time (l ++ l') = atTime time l ++ atTime time l' := List.filter_append _ _

theorem atTime_of_lt {time : Nat} {l : List (Nat × Co)} (h : ∀ e ∈ l, time < e.1) :
    atTime time l = [] := by
  refine List.filter_eq_nil_iff.2 fun e he heq => ?_
  have hlt := h e he
  simp only [decide_eq_true_eq] at heq
  omega

theorem atTime_map_of_ne {timestamp time : Nat} (h : timestamp ≠ time) (entry : List Co) :
    atTime time (entry.map fun co => (timestamp, co)) = [] := by
  refine List.filter_eq_nil_iff.2 fun e he heq => ?_
  obtain ⟨co, -, rfl⟩ := List.mem_map.1 he
  simp only [decide_eq_true_eq] at heq
  exact h heq

/-- The suspend list `l` holds what the log says, but for times that the clock has reached. -/
def Follows (l : TimerList Co) (log : List (Nat × Co)) (clock : Nat) : Prop :=
  ∀ time, atTime time l.elems = atTime time log ∨ atTime time l.elems = [] ∧ time ≤ clock

theorem Follows.later {l : TimerList Co} {log : List (Nat × Co)} {clock clock' : Nat}
    (h : Follows l log clock) (hle : clock ≤ clock') : Follows l log clock' := fun time =>
  (h time).imp_right fun hnil => ⟨hnil.1, hnil.2.trans hle⟩

/-- An insertion is for a time that the clock has not reached. -/
theorem Follows.insert {l : TimerList Co} {log : List (Nat × Co)} {clock timestamp : Nat}
    (h : Follows l log clock) (hlt : clock < timestamp) (co : Co) :
    Follows (l.insert timestamp co) (log ++ [(timestamp, co)]) clock := by
  intro time
  have hfilter : atTime time (l.insert timestamp co).elems =
      atTime time (l.elems ++ [(timestamp, co)]) :=
    TimerList.filter_elems_insert l timestamp co time
  rw [hfilter, atTime_append, atTime_append]
  rcases h time with heq | ⟨hnil, hle⟩
  · exact .inl (by rw [heq])
  · have hne : timestamp ≠ time := by omega
    have hnew : atTime time [(timestamp, co)] = [] := atTime_map_of_ne hne [co]
    rw [hnil, hnew]
    exact .inr ⟨rfl, hle⟩

namespace View

variable {n : Nat} {now : Nat → Nat}

/-- Whole timestamps leave the suspend list, and only those that the clock has reached. -/
structure Drains (now : Nat → Nat) (v v' : View n) : Prop where
  atTime : ∀ time, atTime time v'.sched.suspend.elems = atTime time v.sched.suspend.elems ∨
    atTime time v'.sched.suspend.elems = [] ∧ time ≤ now v'.readings
  later : v.readings ≤ v'.readings

theorem Drains.of_eq {v v' : View n} (h : v'.sched.suspend = v.sched.suspend)
    (hle : v.readings ≤ v'.readings) : Drains now v v' :=
  ⟨fun time => .inl (by rw [h]), hle⟩

theorem Drains.trans (hmono : Monotone now) {v v' v'' : View n} (h : Drains now v v')
    (h' : Drains now v' v'') : Drains now v v'' := by
  refine ⟨fun time => ?_, h.later.trans h'.later⟩
  rcases h'.atTime time with heq | hnil
  · rw [heq]
    exact (h.atTime time).imp_right fun hnil => ⟨hnil.1, hnil.2.trans (hmono h'.later)⟩
  · exact .inr hnil

theorem wakeSuspended_drains (hmono : Monotone now) (count : Nat) (v : View n) :
    Drains now v (wakeSuspended now count v).2 := by
  refine wakeSuspended_loop (R := fun v r => Drains now v r.2) (fun _ => .of_eq rfl le_rfl)
    (fun _ => .of_eq rfl (Nat.le_succ _)) (fun _ _ _ h h' => h.trans hmono h') ?_ count v
  intro v time entry suspend hpop hdue
  have hset : Drains now v (v.tick.setSuspend suspend) := by
    refine ⟨fun time' => ?_, Nat.le_succ _⟩
    have hle : now v.readings ≤ now v.tick.readings := hmono (Nat.le_succ _)
    by_cases ht : time = time'
    · refine .inr ⟨atTime_of_lt fun e he => ?_, ?_⟩
      · exact ht ▸ TimerList.lt_of_popFront hpop e he
      · show time' ≤ now v.tick.readings
        omega
    · left
      rw [TimerList.elems_popFront hpop, atTime_append, atTime_map_of_ne ht]
      rfl
  obtain ⟨cos, hpush⟩ := wakeEntry_pushes now entry.inner (v.tick.setSuspend suspend)
  have hframe := (wakeEntry_frame now entry.inner (v.tick.setSuspend suspend)).1
  exact hset.trans hmono (.of_eq (by rw [hframe]) hpush.later)

theorem timeoutEntry_frame (time : Nat) (entry : List String) (v : View n) :
    (timeoutEntry time entry v).2.sched.suspend = v.sched.suspend ∧
      (timeoutEntry time entry v).2.sched.syscallSuspend = v.sched.syscallSuspend := by
  induction entry generalizing v with
  | nil => exact ⟨rfl, rfl⟩
  | cons coName entry ih =>
    rw [timeoutEntry]
    split
    · exact ih v
    · split
      · exact ih _
      · exact ⟨rfl, rfl⟩

theorem wakeTimedOut_suspend (now : Nat → Nat) (count : Nat) (v : View n) :
    (wakeTimedOut now count v).2.sched.suspend = v.sched.suspend := by
  refine wakeTimedOut_loop (R := fun v r => r.2.sched.suspend = v.sched.suspend) (fun _ => rfl)
    (fun _ => rfl) (fun _ _ _ h h' => h'.trans h) ?_ count v
  intro v time entry syscallSuspend _ _
  exact (timeoutEntry_frame (now v.readings) entry.inner _).1

theorem checkReady_drains (hmono : Monotone now) (v : View n) :
    Drains now v (v.checkReady now).2 := by
  refine checkReady_loops (R := fun v r => Drains now v r.2) (fun _ _ _ h h' => h.trans hmono h')
    (wakeSuspended_drains hmono) (fun count v => ?_) v
  obtain ⟨cos, hpush⟩ := wakeTimedOut_pushes now count v
  exact .of_eq (wakeTimedOut_suspend now count v) hpush.later

/-- What is left in the suspend list is for later than the first reading. -/
theorem wakeSuspended_later (hmono : Monotone now) {v v' : View n}
    {entries : List (Nat × TimerEntry Co)} (he : v.sched.suspend.entries = entries)
    (h : wakeSuspended now entries.length v = (none, v')) :
    ∀ e ∈ v'.sched.suspend.entries, now v.readings < e.1 := by
  induction entries generalizing v with
  | nil =>
    cases h
    rw [he]
    intro e hm
    cases hm
  | cons e entries ih =>
    obtain ⟨execTime, entry⟩ := e
    obtain ⟨suspend, hrest, -, hstep⟩ := wakeSuspended_cons now he entries.length
    rw [List.length_cons, hstep] at h
    by_cases hdue : now v.readings < execTime
    · rw [if_pos hdue] at h
      cases h
      exact OrderedMap.lt_of_first he hdue
    · rw [if_neg hdue] at h
      obtain ⟨cos, hpush⟩ := wakeEntry_pushes now entry.inner (v.tick.setSuspend suspend)
      have hframe := (wakeEntry_frame now entry.inner (v.tick.setSuspend suspend)).1
      cases hmid : wakeEntry now entry.inner (v.tick.setSuspend suspend) with
      | mk r mid =>
      rw [hmid] at h hpush hframe
      cases r with
      | some stop => cases h
      | none =>
        have hmidrest : mid.sched.suspend.entries = entries := by
          have hsched : mid.sched = (v.tick.setSuspend suspend).sched := hframe
          rw [hsched]
          exact hrest
        have hle : now v.readings ≤ now mid.readings :=
          hmono ((Nat.le_succ _).trans hpush.later)
        intro e hm
        exact hle.trans_lt (ih hmidrest h e hm)

theorem wakeTimedOut_later (hmono : Monotone now) {v v' : View n}
    {entries : List (Nat × TimerEntry String)} (he : v.sched.syscallSuspend.entries = entries)
    (h : wakeTimedOut now entries.length v = (none, v')) :
    ∀ e ∈ v'.sched.syscallSuspend.entries, now v.readings < e.1 := by
  induction entries generalizing v with
  | nil =>
    cases h
    rw [he]
    intro e hm
    cases hm
  | cons e entries ih =>
    obtain ⟨execTime, entry⟩ := e
    obtain ⟨syscallSuspend, hfront, hpop, hrest⟩ := OrderedMap.popFirst_of_entries he
    have hfront' : v.sched.syscallSuspend.front = some (execTime, entry) := hfront
    have hpop' : v.sched.syscallSuspend.popFront = some ((execTime, entry), syscallSuspend) := hpop
    rw [List.length_cons, wakeTimedOut, hfront'] at h
    dsimp only at h
    by_cases hdue : now v.readings < execTime
    · rw [if_pos hdue] at h
      cases h
      exact OrderedMap.lt_of_first he hdue
    · rw [if_neg hdue, hpop'] at h
      dsimp only at h
      obtain ⟨cos, hpush⟩ := timeoutEntry_pushes (now v.readings) entry.inner
        (v.tick.setSyscallSuspend syscallSuspend)
      have hframe := (timeoutEntry_frame (now v.readings) entry.inner
        (v.tick.setSyscallSuspend syscallSuspend)).2
      split at h
      · rename_i mid hmid
        rw [hmid] at hpush hframe
        have hmidrest : mid.sched.syscallSuspend.entries = entries := by
          have htimers : mid.sched.syscallSuspend = syscallSuspend := hframe
          rw [htimers]
          exact hrest
        have hle : now v.readings ≤ now mid.readings := hmono ((Nat.le_succ _).trans hpush.later)
        intro e hm
        exact hle.trans_lt (ih hmidrest h e hm)
      · cases h

end View

/-- A run of the schedulers with the log of what was inserted into each suspend list. -/
structure Logged (ι θ : Type*) (n : Nat) where
  world : World ι θ n
  inserted : ι → List (Nat × Co)

namespace Logged

variable {ι θ : Type*} {n : Nat} [DecidableEq ι] [DecidableEq θ] {now : Nat → Nat}

/-- The insertion into a suspend list that a step makes. -/
def inserts (now : Nat → Nat) (s : World ι θ n) : World.Act ι θ → Option (ι × Nat × Co)
  | .turn i =>
    match s.phase i with
    | .returned _ _ co (.ok (.suspend () timestamp)) =>
      if timestamp ≤ now s.readings then none else some (i, timestamp, co)
    | _ => none
  | _ => none

def log (inserted : ι → List (Nat × Co)) : Option (ι × Nat × Co) → ι → List (Nat × Co)
  | none => inserted
  | some (i, e) => update inserted i (inserted i ++ [e])

def step (now : Nat → Nat) (s : Logged ι θ n) (a : World.Act ι θ) : Option (Logged ι θ n) :=
  (s.world.step now a).map fun world => ⟨world, log s.inserted (inserts now s.world a)⟩

structure Initial (s : Logged ι θ n) : Prop where
  suspend : ∀ i, (s.world.sched i).suspend.elems = []
  inserted : ∀ i, s.inserted i = []

def InOrder (now : Nat → Nat) (s : Logged ι θ n) : Prop :=
  ∀ i, Follows (s.world.sched i).suspend (s.inserted i) (now s.world.readings)

omit [DecidableEq ι] [DecidableEq θ] in
theorem Initial.inOrder {s : Logged ι θ n} (h : s.Initial) : s.InOrder now := by
  intro i time
  rw [h.suspend i, h.inserted i]
  exact .inl rfl

omit [DecidableEq ι] [DecidableEq θ] in
theorem inserts_none {s : World ι θ n} {a : World.Act ι θ}
    (hno : ∀ i v, ¬ World.Operates now s i a v) : inserts now s a = none := by
  unfold inserts
  split
  · split
    · rename_i i _ _ _ _ _ hp
      exact absurd (.place hp) (hno i _)
    · rfl
  · rfl

omit [DecidableEq θ] in
/-- An operation on a scheduler keeps the order of its suspend list. -/
theorem operates_inOrder (hmono : Monotone now) {s : World ι θ n} {i : ι} {a : World.Act ι θ}
    {v : View n} (hv : World.Operates now s i a v) {inserted : ι → List (Nat × Co)}
    (h : Follows (s.sched i).suspend (inserted i) (now s.readings)) :
    Follows v.sched.suspend (log inserted (inserts now s a) i) (now v.readings) ∧
      ∀ j, j ≠ i → log inserted (inserts now s a) j = inserted j := by
  cases hv with
  | submit uuid => exact ⟨h, fun _ _ => rfl⟩
  | tryResume coName =>
    have hsuspend : ((s.view i).tryResume coName).2.sched.suspend = (s.sched i).suspend := by
      rw [View.tryResume]
      split
      · rfl
      · split
        · split <;> rfl
        · rfl
    obtain ⟨cos, hpush⟩ := (s.view i).tryResume_pushes coName
    rw [hsuspend]
    exact ⟨h.later (hmono hpush.later), fun _ _ => rfl⟩
  | checkReady hp =>
    have hnone : inserts now s (.turn i) = none := by simp [inserts, hp]
    have hdrains := View.checkReady_drains hmono (s.view i)
    rw [hnone]
    refine ⟨fun time => ?_, fun _ _ => rfl⟩
    rcases hdrains.atTime time with heq | hnil
    · rw [heq]
      exact h.later (hmono hdrains.later) time
    · exact .inr hnil
  | @place t timeoutTime co result hp =>
    cases result with
    | suspend y timestamp =>
      rw [View.place]
      by_cases hdue : timestamp ≤ now s.readings
      · have hnone : inserts now s (.turn i) = none := by simp [inserts, hp, hdue]
        have hdue' : timestamp ≤ now (s.view i).readings := hdue
        rw [hnone, if_pos hdue']
        exact ⟨h.later (hmono (Nat.le_succ _)), fun _ _ => rfl⟩
      · have hsome : inserts now s (.turn i) = some (i, timestamp, co) := by
          simp [inserts, hp, hdue]
        have hdue' : ¬ timestamp ≤ now (s.view i).readings := hdue
        rw [hsome, if_neg hdue', log, update_self]
        refine ⟨?_, fun j hj => update_of_ne hj _ _⟩
        exact (h.insert (Nat.lt_of_not_le hdue) co).later (hmono (Nat.le_succ _))
    | systemCall y call state =>
      have hnone : inserts now s (.turn i) = none := by simp [inserts, hp]
      rw [hnone]
      cases state with
      | suspend _ | computing | calling _ | timeout | finished => exact ⟨h, fun _ _ => rfl⟩
    | created | ready | running | complete _ | error _ =>
      have hnone : inserts now s (.turn i) = none := by simp [inserts, hp]
      rw [hnone]
      exact ⟨h, fun _ _ => rfl⟩

theorem InOrder.step (hmono : Monotone now) {s s' : Logged ι θ n} (h : s.InOrder now)
    {a : World.Act ι θ} (hs : s.step now a = some s') : s'.InOrder now := by
  obtain ⟨world, hw, rfl⟩ := Option.map_eq_some_iff.1 hs
  intro j
  cases World.step_touches hw with
  | rests hq hsched hr hno =>
    rw [hsched, inserts_none hno]
    exact (h j).later (hmono hr)
  | operates i v hv hq hsched hr =>
    obtain ⟨hi, hothers⟩ := operates_inOrder hmono hv (h i)
    by_cases hj : j = i
    · subst hj
      rw [hsched, update_self, hr]
      exact hi
    · obtain ⟨cos, hpush⟩ := hv.pushes
      rw [hsched, update_of_ne hj, hr]
      show Follows _ (log s.inserted (inserts now s.world a) j) _
      rw [hothers j hj]
      exact (h j).later (hmono hpush.later)
  | pops i hq hsched hr hno =>
    have hsuspend : (world.sched j).suspend = (s.world.sched j).suspend := by
      rw [hsched]
      by_cases hj : j = i
      · subst hj
        rw [update_self]
      · rw [update_of_ne hj]
    rw [hsuspend, inserts_none hno]
    exact (h j).later (hmono hr)

/-- A call of `check_ready` on scheduler `i` that leaves `v` has released what it had to, when
it was due, and in order. -/
structure Released (now : Nat → Nat) (s : Logged ι θ n) (i : ι) (v : View n)
    (released : List Release) (timedOut : List Co) : Prop where
  suspend : ∀ e ∈ v.sched.suspend.entries, now s.world.readings < e.1
  syscall : ∀ e ∈ v.sched.syscallSuspend.entries, now s.world.readings < e.1
  taken : (s.world.sched i).suspend.elems = released.map Release.timed ++ v.sched.suspend.elems
  handed : v.queue = (s.world.view i).hand (released.map (Release.woken now) ++ timedOut)
  due : ∀ x ∈ released, x.timestamp ≤ now x.reading ∧ x.Succeeds now
  during : ∀ x ∈ released, s.world.readings < x.reading ∧ x.reading < v.readings
  sorted : released.Pairwise fun x y => x.timestamp ≤ y.timestamp ∧ x.reading < y.reading
  inserted : ∀ x ∈ released,
    atTime x.timestamp (released.map Release.timed) = atTime x.timestamp (s.inserted i)

omit [DecidableEq ι] [DecidableEq θ] in
/-- Those of one timestamp are released together, as they were inserted. -/
theorem InOrder.released {s : Logged ι θ n} (h : s.InOrder now) {i : ι} {v : View n}
    {released : List Release}
    (htaken : (s.world.sched i).suspend.elems = released.map Release.timed ++ v.sched.suspend.elems)
    (hdrains : View.Drains now (s.world.view i) v) {x : Release} (hx : x ∈ released) :
    atTime x.timestamp (released.map Release.timed) = atTime x.timestamp (s.inserted i) := by
  have hmem : x.timed ∈ atTime x.timestamp (released.map Release.timed) :=
    List.mem_filter.2 ⟨List.mem_map_of_mem hx, by simp [Release.timed]⟩
  have hall : atTime x.timestamp (s.world.sched i).suspend.elems =
      atTime x.timestamp (released.map Release.timed) ++ atTime x.timestamp v.sched.suspend.elems := by
    rw [htaken, atTime_append]
  have hleft : atTime x.timestamp v.sched.suspend.elems = [] := by
    rcases hdrains.atTime x.timestamp with heq | ⟨hnil, -⟩
    · have hview : (s.world.view i).sched.suspend.elems = (s.world.sched i).suspend.elems := rfl
      rw [hview, hall] at heq
      have hlen := congrArg List.length heq
      have hpos := List.length_pos_of_mem hmem
      rw [List.length_append] at hlen
      omega
    · exact hnil
  rw [hleft, List.append_nil] at hall
  rw [← hall]
  rcases h i x.timestamp with heq | ⟨hnil, -⟩
  · exact heq
  · rw [← hall, hnil] at hmem
    cases hmem

theorem released_in_order (hmono : Monotone now) {s₀ s : Logged ι θ n} (h₀ : s₀.Initial)
    (h : Reaches (Logged.step now) Free s₀ s) {i : ι} {v : View n}
    (hok : (s.world.view i).checkReady now = (none, v)) :
    ∃ released timedOut, Released now s i v released timedOut := by
  have horder : s.InOrder now := h.invariant h₀.inOrder fun _ _ _ hi _ hs => hi.step hmono hs
  have hdrains := View.checkReady_drains hmono (s.world.view i)
  rw [hok] at hdrains
  rcases (s.world.view i).checkReady_err now with ⟨hall, -⟩ | ⟨-, e, v', hv', -⟩
  · obtain ⟨mid, hmid, hwakes⟩ := View.wakeSuspended_ok rfl hall
    have hfirst : View.wakeSuspended now (s.world.view i).sched.suspend.entryLen (s.world.view i) =
        (none, mid) := hmid
    have hsecond : View.wakeTimedOut now mid.sched.syscallSuspend.entryLen mid = (none, v) := by
      rw [View.checkReady, hfirst] at hok
      exact hok
    obtain ⟨timedOut, hpush⟩ := View.wakeTimedOut_pushes now mid.sched.syscallSuspend.entryLen mid
    have hsuspend := View.wakeTimedOut_suspend now mid.sched.syscallSuspend.entryLen mid
    rw [hsecond] at hpush hsuspend
    have htaken : (s.world.sched i).suspend.elems =
        (releases now s.world.readings (s.world.sched i).suspend.entries).map Release.timed ++
          v.sched.suspend.elems := by
      rw [hsuspend]
      exact hwakes.elems
    have hsorted := (s.world.sched i).suspend.elems_sorted
    rw [htaken] at hsorted
    refine ⟨_, timedOut, ?_, ?_, htaken, ?_, fun x hx => ⟨releases_due hmono hx, hall x hx⟩,
      fun x hx => ⟨mem_releases hx, ?_⟩, ?_, fun x hx => horder.released htaken hdrains hx⟩
    · rw [hsuspend]
      exact View.wakeSuspended_later hmono rfl hmid
    · intro e he
      have hle : now s.world.readings ≤ now mid.readings := hmono hwakes.later
      exact hle.trans_lt (View.wakeTimedOut_later hmono rfl hsecond e he)
    · rw [hpush.queue, hwakes.queue, hwakes.sched, View.hand, View.hand, List.foldl_append]
      rfl
    · exact (hwakes.readings x hx).trans_le hpush.later
    · have htimes := (List.pairwise_append.1 hsorted).1
      rw [List.pairwise_map] at htimes
      exact htimes.and (releases_increasing now _ _)
  · rw [hok] at hv'
    cases hv'

/-- Two coroutines delay themselves until 130, one after the other. -/
def delays : List (World.Act Unit Unit) :=
  [.submit () "a" true, .submit () "b" true, .schedule () () 1000, .turn (), .turn (), .turn (),
    .leave () (.untilWith () 130), .turn (), .turn (), .turn (), .turn (),
    .leave () (.untilWith () 130), .turn (), .turn ()]

def start : Logged Unit Unit 1 := ⟨World.single, fun _ => []⟩

theorem released_in_order_two : ∃ (s : Logged Unit Unit 1) (v : View 1) (released : List Release)
    (timedOut : List Co), Released World.everyTwenty s () v released timedOut ∧
      released.map (fun x => (x.timestamp, x.co.name)) = [(130, "s|a"), (130, "s|b")] := by
  obtain ⟨s, v, h, hok, hbefore, hafter⟩ : ∃ (s : Logged Unit Unit 1) (v : View 1),
      Reaches (Logged.step World.everyTwenty) Free start s ∧
        (s.world.view ()).checkReady World.everyTwenty = (none, v) ∧
        (s.world.sched ()).suspend.elems.map (fun e => (e.1, e.2.name)) =
          [(130, "s|a"), (130, "s|b")] ∧
        v.sched.suspend.elems = [] :=
    ⟨_, _, Reaches.of_run delays rfl (guarded_free _), rfl, rfl, rfl⟩
  have hmono : Monotone World.everyTwenty := fun a b hab => Nat.mul_le_mul_left 20 hab
  obtain ⟨released, timedOut, hr⟩ :=
    released_in_order hmono (show start.Initial from ⟨fun _ => rfl, fun _ => rfl⟩) h hok
  refine ⟨s, v, released, timedOut, hr, ?_⟩
  rw [hr.taken, hafter, List.append_nil, List.map_map] at hbefore
  exact hbefore

end Logged

end OpenCoroutine
