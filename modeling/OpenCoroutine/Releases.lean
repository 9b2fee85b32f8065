import OpenCoroutine.Containers
import OpenCoroutine.Places

/-! What `check_ready` takes from the suspend list. It goes through the entries that are due
and hands their coroutines to the ready queue one by one; each of them takes a reading of
the clock of its own in `ready`, and where that fails the call gives up. `releases` is the
list of these steps. -/

namespace OpenCoroutine

open Function Transition

/-- A coroutine of an entry under `timestamp`, and the number of the reading of the clock that
`ready` takes for it. -/
structure Release where
  timestamp : Nat
  co : Co
  reading : Nat

namespace Release

def timed (x : Release) : Nat × Co := (x.timestamp, x.co)

/-- The coroutine as it is handed to the ready queue. -/
def woken (now : Nat → Nat) (x : Release) : Co := (x.co.ready (now x.reading)).2

def Succeeds (now : Nat → Nat) (x : Release) : Prop := (x.co.ready (now x.reading)).1 = .ok ()

end Release

def entryReleases (timestamp : Nat) : Nat → List Co → List Release
  | _, [] => []
  | reading, co :: entry => ⟨timestamp, co, reading⟩ :: entryReleases timestamp (reading + 1) entry

/-- The steps of `check_ready` through the entries, if it takes the given reading first and all
of them succeed. -/
def releases (now : Nat → Nat) : Nat → List (Nat × TimerEntry Co) → List Release
  | _, [] => []
  | reading, (execTime, entry) :: entries =>
    if now reading < execTime then []
    else entryReleases execTime (reading + 1) entry.inner ++
      releases now (reading + 1 + entry.inner.length) entries

theorem timed_entryReleases (timestamp reading : Nat) (entry : List Co) :
    (entryReleases timestamp reading entry).map Release.timed =
      entry.map fun co => (timestamp, co) := by
  induction entry generalizing reading with
  | nil => rfl
  | cons co entry ih =>
    rw [entryReleases, List.map_cons, ih, List.map_cons, Release.timed]

theorem mem_entryReleases {timestamp reading : Nat} {entry : List Co} {x : Release}
    (h : x ∈ entryReleases timestamp reading entry) :
    x.timestamp = timestamp ∧ reading ≤ x.reading ∧ x.reading < reading + entry.length := by
  induction entry generalizing reading with
  | nil => cases h
  | cons co entry ih =>
    rw [List.length_cons]
    rcases List.mem_cons.1 h with rfl | h
    · exact ⟨rfl, le_rfl, Nat.lt_add_of_pos_right (Nat.succ_pos _)⟩
    · obtain ⟨htime, hlow, hhigh⟩ := ih h
      exact ⟨htime, by omega, by omega⟩

/-- Each of them takes a later reading than those before it. -/
theorem entryReleases_increasing (timestamp reading : Nat) (entry : List Co) :
    (entryReleases timestamp reading entry).Pairwise fun x y => x.reading < y.reading := by
  induction entry generalizing reading with
  | nil => exact .nil
  | cons co entry ih =>
    refine List.pairwise_cons.2 ⟨fun y hy => ?_, ih (reading + 1)⟩
    have hlow := (mem_entryReleases hy).2.1
    show reading < y.reading
    omega

theorem mem_releases {now : Nat → Nat} {reading : Nat} {entries : List (Nat × TimerEntry Co)}
    {x : Release} (h : x ∈ releases now reading entries) : reading < x.reading := by
  induction entries generalizing reading with
  | nil => cases h
  | cons e entries ih =>
    obtain ⟨execTime, entry⟩ := e
    rw [releases] at h
    split at h
    · cases h
    · rcases List.mem_append.1 h with h | h
      · have hlow := (mem_entryReleases h).2.1
        omega
      · have hlow := ih h
        omega

theorem releases_increasing (now : Nat → Nat) (reading : Nat)
    (entries : List (Nat × TimerEntry Co)) :
    (releases now reading entries).Pairwise fun x y => x.reading < y.reading := by
  induction entries generalizing reading with
  | nil => exact .nil
  | cons e entries ih =>
    obtain ⟨execTime, entry⟩ := e
    rw [releases]
    split
    · exact .nil
    · refine List.pairwise_append.2 ⟨entryReleases_increasing _ _ _, ih _, fun x hx y hy => ?_⟩
      have hhigh := (mem_entryReleases hx).2.2
      have hlow := mem_releases hy
      omega

/-- With a clock that does not go back nothing is released before its time. -/
theorem releases_due {now : Nat → Nat} (hmono : Monotone now) {reading : Nat}
    {entries : List (Nat × TimerEntry Co)} {x : Release} (h : x ∈ releases now reading entries) :
    x.timestamp ≤ now x.reading := by
  induction entries generalizing reading with
  | nil => cases h
  | cons e entries ih =>
    obtain ⟨execTime, entry⟩ := e
    rw [releases] at h
    split at h
    · cases h
    · rename_i hdue
      rcases List.mem_append.1 h with h | h
      · obtain ⟨htime, hlow, -⟩ := mem_entryReleases h
        have hle : now reading ≤ now x.reading := hmono (by omega)
        omega
      · exact ih h

namespace View

variable {n : Nat} {now : Nat → Nat}

def hand (v : View n) (cos : List Co) : WorkStealQueue Co n :=
  cos.foldl v.sched.ready.pushBack v.queue

theorem wakeEntry_ok (timestamp : Nat) {entry : List Co} {v : View n}
    (h : ∀ x ∈ entryReleases timestamp v.readings entry, x.Succeeds now) :
    ∃ v', wakeEntry now entry v = (none, v') ∧
      v'.queue = v.hand ((entryReleases timestamp v.readings entry).map (Release.woken now)) ∧
      v'.sched = v.sched ∧ v'.readings = v.readings + entry.length := by
  induction entry generalizing v with
  | nil => exact ⟨v, rfl, rfl, rfl, rfl⟩
  | cons co entry ih =>
    have hco : (co.ready (now v.readings)).1 = .ok () := h _ List.mem_cons_self
    have hready : co.ready (now v.readings) = (.ok (), (co.ready (now v.readings)).2) := by
      rw [← hco]
    have hrest : ∀ x ∈ entryReleases timestamp
        (v.tick.pushReady (co.ready (now v.readings)).2).readings entry, x.Succeeds now :=
      fun x hx => h x (List.mem_cons_of_mem _ hx)
    obtain ⟨v', hv', hqueue, hsched, hreadings⟩ := ih hrest
    refine ⟨v', ?_, hqueue, hsched, ?_⟩
    · rw [wakeEntry, hready]
      exact hv'
    · rw [hreadings, List.length_cons]
      exact Nat.succ_add_eq_add_succ _ _

/-- A coroutine that is not due by its own reading ends the call, and it and what follows it in
its entry are nowhere any more. -/
theorem wakeEntry_err (timestamp : Nat) {entry : List Co} {v : View n}
    (h : ¬ ∀ x ∈ entryReleases timestamp v.readings entry, x.Succeeds now) :
    ∃ pre x post e v', entryReleases timestamp v.readings entry = pre ++ x :: post ∧
      ¬ x.Succeeds now ∧ wakeEntry now entry v = (some (.err e), v') ∧
      v'.queue = v.hand (pre.map (Release.woken now)) ∧ v'.sched = v.sched := by
  induction entry generalizing v with
  | nil => exact absurd (fun x hx => by cases hx) h
  | cons co entry ih =>
    cases hco : co.ready (now v.readings) with
    | mk r co' =>
      rw [wakeEntry, hco]
      cases r with
      | ok u =>
        have hhead : Release.Succeeds now ⟨timestamp, co, v.readings⟩ := by
          rw [Release.Succeeds, hco]
        have hrest : ¬ ∀ x ∈ entryReleases timestamp (v.tick.pushReady co').readings entry,
            x.Succeeds now := by
          intro hall
          refine h fun x hx => ?_
          rcases List.mem_cons.1 hx with rfl | hx
          · exact hhead
          · exact hall x hx
        obtain ⟨pre, x, post, e, v', hsplit, hfails, hstop, hqueue, hsched⟩ := ih hrest
        refine ⟨⟨timestamp, co, v.readings⟩ :: pre, x, post, e, v', ?_, hfails, hstop, ?_, hsched⟩
        · rw [List.cons_append, ← hsplit]
          rfl
        · have hwoken : Release.woken now ⟨timestamp, co, v.readings⟩ = co' := by
            rw [Release.woken, hco]
          rw [List.map_cons, hwoken]
          exact hqueue
      | error e =>
        refine ⟨[], ⟨timestamp, co, v.readings⟩, entryReleases timestamp (v.readings + 1) entry, e,
          v.tick, rfl, ?_, rfl, rfl, rfl⟩
        rw [Release.Succeeds, hco]
        simp

theorem wakeSuspended_cons (now : Nat → Nat) {v : View n} {execTime : Nat} {entry : TimerEntry Co}
    {entries : List (Nat × TimerEntry Co)}
    (he : v.sched.suspend.entries = (execTime, entry) :: entries)
    (count : Nat) : ∃ suspend, suspend.entries = entries ∧
      v.sched.suspend.elems = entry.inner.map (fun co => (execTime, co)) ++ TimerList.elems suspend ∧
      wakeSuspended now (count + 1) v =
        if now v.readings < execTime then (none, v.tick)
        else
          let r := wakeEntry now entry.inner (v.tick.setSuspend suspend)
          r.1.elim (wakeSuspended now count r.2) fun stop => (some stop, r.2) := by
  obtain ⟨suspend, hfront, hpop, hrest⟩ := OrderedMap.popFirst_of_entries he
  have hfront' : v.sched.suspend.front = some (execTime, entry) := hfront
  have hpop' : v.sched.suspend.popFront = some ((execTime, entry), suspend) := hpop
  refine ⟨suspend, hrest, TimerList.elems_popFront hpop', ?_⟩
  rw [wakeSuspended, hfront']
  dsimp only
  by_cases hdue : now v.readings < execTime
  · rw [if_pos hdue, if_pos hdue]
  · rw [if_neg hdue, if_neg hdue, hpop']
    dsimp only
    cases wakeEntry now entry.inner (v.tick.setSuspend suspend) with
    | mk r v' =>
      cases r with
      | none => rfl
      | some stop => rfl

/-- `v'` is what `check_ready` makes of `v` on the suspend list, if nothing fails. -/
structure Wakes (now : Nat → Nat) (v v' : View n) : Prop where
  queue : v'.queue = v.hand ((releases now v.readings v.sched.suspend.entries).map (Release.woken now))
  elems : v.sched.suspend.elems =
    (releases now v.readings v.sched.suspend.entries).map Release.timed ++ v'.sched.suspend.elems
  sched : v'.sched = { v.sched with suspend := v'.sched.suspend }
  readings : ∀ x ∈ releases now v.readings v.sched.suspend.entries, x.reading < v'.readings
  later : v.readings ≤ v'.readings

theorem Wakes.of_nil {v v' : View n} (h : releases now v.readings v.sched.suspend.entries = [])
    (hq : v'.queue = v.queue) (hsched : v'.sched = v.sched) (hr : v.readings ≤ v'.readings) :
    Wakes now v v' where
  queue := by
    rw [h, hq]
    rfl
  elems := by
    rw [h, hsched]
    rfl
  sched := by rw [hsched]
  readings := by
    rw [h]
    intro x hx
    cases hx
  later := hr

theorem wakeSuspended_ok {v : View n} {entries : List (Nat × TimerEntry Co)}
    (he : v.sched.suspend.entries = entries)
    (h : ∀ x ∈ releases now v.readings entries, x.Succeeds now) :
    ∃ v', wakeSuspended now entries.length v = (none, v') ∧ Wakes now v v' := by
  induction entries generalizing v with
  | nil => exact ⟨v, rfl, .of_nil (by rw [he, releases]) rfl rfl le_rfl⟩
  | cons e entries ih =>
    obtain ⟨execTime, entry⟩ := e
    obtain ⟨suspend, hrest, helems, hstep⟩ := wakeSuspended_cons now he entries.length
    rw [List.length_cons, hstep]
    by_cases hdue : now v.readings < execTime
    · rw [if_pos hdue]
      have hnone : releases now v.readings v.sched.suspend.entries = [] := by
        rw [he, releases, if_pos hdue]
      exact ⟨v.tick, rfl, .of_nil hnone rfl rfl (Nat.le_succ _)⟩
    · rw [releases, if_neg hdue] at h
      have hentry : ∀ x ∈ entryReleases execTime (v.tick.setSuspend suspend).readings entry.inner,
          x.Succeeds now := fun x hx => h x (List.mem_append_left _ hx)
      obtain ⟨mid, hmid, hqueue, hsched, hreadings⟩ := wakeEntry_ok execTime hentry
      have hmidrest : mid.sched.suspend.entries = entries := by
        rw [hsched]
        exact hrest
      have hnext : mid.readings = v.readings + 1 + entry.inner.length := hreadings
      rw [← hnext] at h
      obtain ⟨v', hv', hw⟩ := ih hmidrest fun x hx => h x (List.mem_append_right _ hx)
      have hreleases : releases now v.readings v.sched.suspend.entries =
          entryReleases execTime (v.readings + 1) entry.inner ++
            releases now mid.readings mid.sched.suspend.entries := by
        rw [he, releases, if_neg hdue, hmidrest, hnext]
      rw [if_neg hdue, hmid]
      refine ⟨v', hv', ?_, ?_, ?_, ?_, ?_⟩
      · rw [hw.queue, hreleases, List.map_append, hand, hand, List.foldl_append, hqueue, hsched]
        rfl
      · rw [hreleases, List.map_append, timed_entryReleases, List.append_assoc, ← hw.elems,
          helems, hsched]
        rfl
      · rw [hw.sched, hsched]
        rfl
      · rw [hreleases]
        intro x hx
        rcases List.mem_append.1 hx with hx | hx
        · have hhigh := (mem_entryReleases hx).2.2
          have hlater := hw.later
          omega
        · exact hw.readings x hx
      · have hlater := hw.later
        omega

/-- The first coroutine that is not due by its own reading ends the call. Those before it have
been handed over; it and the rest of its entry are gone. -/
theorem wakeSuspended_err {v : View n} {entries : List (Nat × TimerEntry Co)}
    (he : v.sched.suspend.entries = entries)
    (h : ¬ ∀ x ∈ releases now v.readings entries, x.Succeeds now) :
    ∃ (pre : List Release) (x : Release) (gone : List (Nat × Co)) (e : IoError) (v' : View n),
      ¬ x.Succeeds now ∧ wakeSuspended now entries.length v = (some (.err e), v') ∧
      v'.queue = v.hand (pre.map (Release.woken now)) ∧
      v.sched.suspend.elems = pre.map Release.timed ++ x.timed :: (gone ++ v'.sched.suspend.elems) := by
  induction entries generalizing v with
  | nil => exact absurd (fun x hx => by cases hx) h
  | cons e entries ih =>
    obtain ⟨execTime, entry⟩ := e
    obtain ⟨suspend, hrest, helems, hstep⟩ := wakeSuspended_cons now he entries.length
    rw [List.length_cons, hstep]
    by_cases hdue : now v.readings < execTime
    · rw [releases, if_pos hdue] at h
      exact absurd (fun x hx => by cases hx) h
    · rw [releases, if_neg hdue] at h
      rw [if_neg hdue]
      by_cases hentry : ∀ x ∈ entryReleases execTime (v.tick.setSuspend suspend).readings
          entry.inner, x.Succeeds now
      · obtain ⟨mid, hmid, hqueue, hsched, hreadings⟩ := wakeEntry_ok execTime hentry
        have hmidrest : mid.sched.suspend.entries = entries := by
          rw [hsched]
          exact hrest
        have hnext : mid.readings = v.readings + 1 + entry.inner.length := hreadings
        have hlater : ¬ ∀ x ∈ releases now mid.readings entries, x.Succeeds now := by
          intro hall
          refine h fun x hx => ?_
          rcases List.mem_append.1 hx with hx | hx
          · exact hentry x hx
          · rw [← hnext] at hx
            exact hall x hx
        obtain ⟨pre, x, gone, e, v', hfails, hstop, hq, hsplit⟩ := ih hmidrest hlater
        rw [hmid]
        refine ⟨entryReleases execTime (v.readings + 1) entry.inner ++ pre, x, gone, e, v', hfails,
          hstop, ?_, ?_⟩
        · rw [hq, List.map_append, hand, hand, List.foldl_append, hqueue, hsched]
          rfl
        · rw [helems, List.map_append, timed_entryReleases, List.append_assoc, ← hsplit, hsched]
          rfl
      · obtain ⟨pre, x, post, e, v', hsplit, hfails, hstop, hq, hsched⟩ :=
          wakeEntry_err execTime hentry
        have hall := congrArg (List.map Release.timed) hsplit
        rw [timed_entryReleases, List.map_append, List.map_cons] at hall
        refine ⟨pre, x, post.map Release.timed, e, v', hfails, ?_, hq, ?_⟩
        · rw [hstop]
          rfl
        · rw [helems, hall, hsched, List.append_assoc]
          rfl

/-! Errors. -/

theorem timeOut_unreachable {co : Co} {stop : Stop} (h : timeOut co = .error stop) :
    ∃ message, stop = .unreachable message := by
  cases hst : co.state with
  | systemCall y call state =>
    obtain ⟨co', hok, -⟩ := timeOut_eq (show co.state.isSystemCall = true by rw [hst]; rfl)
    rw [hok] at h
    cases h
  | created | ready | running | suspend _ _ | complete _ | error _ =>
    simp only [timeOut, hst, Except.error.injEq] at h
    exact ⟨_, h.symm⟩

theorem timeoutEntry_ne_err (time : Nat) (entry : List String) (v : View n) (e : IoError) :
    (timeoutEntry time entry v).1 ≠ some (.err e) := by
  induction entry generalizing v with
  | nil => simp [timeoutEntry]
  | cons coName entry ih =>
    rw [timeoutEntry]
    split
    · exact ih v
    · split
      · exact ih _
      · rename_i stop hstop
        obtain ⟨message, rfl⟩ := timeOut_unreachable hstop
        simp

theorem wakeTimedOut_ne_err (count : Nat) (v : View n) (e : IoError) :
    (wakeTimedOut now count v).1 ≠ some (.err e) := by
  refine wakeTimedOut_loop (R := fun _ r => r.1 ≠ some (.err e)) (fun _ => nofun) (fun _ => nofun)
    (fun _ _ _ _ h => h) ?_ count v
  intro v time entry syscallSuspend _ _
  exact timeoutEntry_ne_err _ entry.inner _ e

/-- The names of the coroutines in the suspend list and in the ready queue. -/
def owned (v : View n) : Multiset String :=
  names (v.sched.suspend.elems.map Prod.snd : List Co) + names v.queue.contents

theorem card_owned (v : View n) :
    v.owned.card = v.sched.suspend.elems.length + v.queue.contents.card := by
  simp [owned, names]

theorem card_hand (v : View n) (cos : List Co) :
    (v.hand cos).contents.card = cos.length + v.queue.contents.card := by
  unfold hand
  generalize v.queue = q
  induction cos generalizing q with
  | nil => simp
  | cons co cos ih =>
    rw [List.foldl_cons, ih, (v.sched.ready.pushBack_gets q co).contents, Multiset.card_add,
      Multiset.card_singleton, List.length_cons]
    omega

/-- `check_ready` fails only at a coroutine of the suspend list, and then that one is gone. -/
theorem checkReady_err (now : Nat → Nat) (v : View n) :
    (∀ x ∈ releases now v.readings v.sched.suspend.entries, x.Succeeds now) ∧
      (∀ e, (v.checkReady now).1 ≠ some (.err e)) ∨
    (¬ ∀ x ∈ releases now v.readings v.sched.suspend.entries, x.Succeeds now) ∧
      ∃ e v', v.checkReady now = (some (.err e), v') ∧ v'.owned.card < v.owned.card := by
  by_cases h : ∀ x ∈ releases now v.readings v.sched.suspend.entries, x.Succeeds now
  · refine .inl ⟨h, fun e => ?_⟩
    obtain ⟨v', hv', -⟩ := wakeSuspended_ok rfl h
    have hv : wakeSuspended now v.sched.suspend.entryLen v = (none, v') := hv'
    rw [checkReady, hv]
    exact wakeTimedOut_ne_err _ v' e
  · obtain ⟨pre, x, gone, e, v', -, hstop, hq, helems⟩ := wakeSuspended_err rfl h
    have hv : wakeSuspended now v.sched.suspend.entryLen v = (some (.err e), v') := hstop
    refine .inr ⟨h, e, v', by rw [checkReady, hv], ?_⟩
    rw [card_owned, card_owned, hq, card_hand, helems, List.length_map, List.length_append,
      List.length_map, List.length_cons, List.length_append]
    omega

end View

namespace World

variable {ι θ : Type*} {n : Nat} [DecidableEq ι] [DecidableEq θ] {now : Nat → Nat}

/-- An error of `check_ready`, and of `try_timeout_schedule` that comes from it, leaves every
coroutine of the suspend list there or in the ready queue, beside those that were in it. -/
structure KeepsOnError (now : Nat → Nat) (s : World ι θ n) (i : ι) : Prop where
  checkReady : ∀ e v, (s.view i).checkReady now = (some (.err e), v) → (s.view i).owned ≤ v.owned
  schedule : ∀ e s', s.turn now i = some s' → s'.returns = .error e :: s.returns →
    (s.view i).owned ≤ (s'.view i).owned

theorem keepsOnError_iff {s : World ι θ n} {i : ι} {t : θ} {timeoutTime leftTime : Nat}
    (hp : s.phase i = .checking t timeoutTime leftTime) :
    KeepsOnError now s i ↔
      ∀ x ∈ releases now s.readings (s.sched i).suspend.entries, x.Succeeds now := by
  rcases (s.view i).checkReady_err now with ⟨hall, hno⟩ | ⟨hnot, e, v, hv, hlt⟩
  · refine iff_of_true ⟨fun e v hv => absurd (by rw [hv]) (hno e), fun e s' hs hret => ?_⟩ hall
    have hsame : s'.returns ≠ s.returns := by
      rw [hret]
      simp
    cases turns hs with
    | @checked t timeoutTime leftTime v _ _ => exact absurd rfl hsame
    | @checkStops t timeoutTime leftTime stop v _ hv =>
      cases stop with
      | err e' => exact absurd (by rw [hv]) (hno e')
      | unreachable message => exact absurd rfl hsame
    | timedOut hp' | check hp' | popsNone hp' | pops hp' | fails hp' | places hp' | placeStops hp' =>
      rw [hp] at hp'
      cases hp'
  · refine iff_of_false (fun hkeeps => ?_) hnot
    have hle := Multiset.card_le_card (hkeeps.checkReady e v hv)
    omega

def everyTwenty (reading : Nat) : Nat := 20 * reading

/-- A clock that is set back between two readings of one call. -/
def setBack (reading : Nat) : Nat := if reading = 5 then 50 else 20 * reading

/-- A coroutine delays itself until 80, and at that time the scheduler looks at its timers. -/
def delayed : List (Act Unit Unit) :=
  [.submit () "a" true, .schedule () () 1000, .turn (), .turn (), .turn (),
    .leave () (.untilWith () 80), .turn (), .turn ()]

/-- Two coroutines delay themselves until the same time. -/
theorem keepsOnError_everyTwenty : ∃ s : World Unit Unit 1,
    ((s.sched ()).suspend.entries.map fun e => (e.1, e.2.inner.length)) = [(160, 2)] ∧
      KeepsOnError everyTwenty s () := by
  obtain ⟨s, hrun, hentries, hp, hall⟩ : ∃ s : World Unit Unit 1,
      run (step everyTwenty) single [.submit () "a" true, .submit () "b" true,
        .schedule () () 1000, .turn (), .turn (), .turn (), .leave () (.untilWith () 160),
        .turn (), .turn (), .turn (), .turn (), .leave () (.untilWith () 160), .turn (),
        .turn ()] = some s ∧
      ((s.sched ()).suspend.entries.map fun e => (e.1, e.2.inner.length)) = [(160, 2)] ∧
      s.phase () = .checking () 1000 860 ∧
      releases everyTwenty s.readings (s.sched ()).suspend.entries =
        [⟨160, ⟨"s|a", .suspend () 160, false⟩, 9⟩,
          ⟨160, ⟨"s|b", .suspend () 160, false⟩, 10⟩] := ⟨_, rfl, rfl, rfl, rfl⟩
  refine ⟨s, hentries, (keepsOnError_iff hp).2 fun x hx => ?_⟩
  rw [hall, List.mem_cons, List.mem_singleton] at hx
  rcases hx with rfl | rfl <;> rfl

/-- The coroutine is neither in the suspend list nor in the ready queue any more. -/
theorem loses_on_error : ∃ s s' : World Unit Unit 1, Reaches (step setBack) Free single s ∧
    s.turn setBack () = some s' ∧ (s.view ()).owned.card = 1 ∧ (s'.view ()).owned.card = 0 ∧
    ¬ KeepsOnError setBack s () := by
  obtain ⟨s, s', e, h, hs, hret, hbefore, hafter⟩ : ∃ (s s' : World Unit Unit 1) (e : IoError),
      Reaches (step setBack) Free single s ∧ s.turn setBack () = some s' ∧
        s'.returns = .error e :: s.returns ∧ (s.view ()).owned.card = 1 ∧
        (s'.view ()).owned.card = 0 :=
    ⟨_, _, _, Reaches.of_run delayed rfl (guarded_free _), rfl, rfl, rfl, rfl⟩
  refine ⟨s, s', h, hs, hbefore, hafter, fun hkeeps => ?_⟩
  have hle := Multiset.card_le_card (hkeeps.schedule e s' hs hret)
  omega

end World

end OpenCoroutine
