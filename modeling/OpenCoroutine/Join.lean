import OpenCoroutine.WaitJust

/-! The two implementations of `Pool::wait_result`. What others do to the maps of the pool
meanwhile, and what the calls out of `wait_result` come to, is given; a call that panics comes
to `none`. `R` stands for what tasks come to. -/

namespace OpenCoroutine

open Function WaitJust

namespace Join

/-- The map `results`, and the names under which `waits` has an entry. -/
structure Maps (R : Type) where
  results : String → Option R
  waits : String → Bool

variable {R : Type}

abbrev Answer (R : Type) := Except IoError (Option (String × R))

def timedOut : Answer R := .error ⟨.timedOut, "wait timeout"⟩

def tryGetResult (s : Maps R) (name : String) : Option (String × R) × Maps R :=
  ((s.results name).map fun r => (name, r), { s with results := update s.results name none })

def Maps.setWaits (s : Maps R) (name : String) (entry : Bool) : Maps R :=
  { s with waits := update s.waits name entry }

/-- The loop of a coroutine, around once for each of a list: its `try_run` and what else happens
until it looks for the result. The time is up after the last. -/
def spin (name : String) : List (Maps R → Maps R) → Maps R → Answer R × Maps R
  | [], s => (timedOut, s)
  | run :: runs, s =>
    match tryGetResult (run s) name with
    | (some r, s) => (.ok (some r), s)
    | (none, s) => spin name runs s

/-- What happens in the loop of a coroutine, whose first round is `run`, and what others do
while a thread is in `wait_timeout_while`. -/
structure Blocking (R : Type) where
  coroutine : Bool
  run : Maps R → Maps R
  runs : List (Maps R → Maps R)
  blocked : Maps R → Maps R

/-- `CoroutinePoolImpl::wait_result`. -/
def poolWaitResult (s : Maps R) (name : String) (b : Blocking R) : Option (Answer R × Maps R) :=
  match tryGetResult s name with
  | (some r, s) => some (.ok (some r), s.setWaits name false)
  | (none, s) =>
    if b.coroutine then some (spin name (b.run :: b.runs) s)
    else
      match tryGetResult (b.blocked (s.setWaits name true)) name with
      | (some r, s) => if s.waits name then some (.ok (some r), s.setWaits name false) else none
      | (none, s) => some (timedOut, s)

/-- A round of `EventLoopImpl::wait_result`: the state it finds the pool in, the call it makes
then, and what has happened to the maps before it looks for the result. -/
structure Round (R : Type) where
  state : PoolState
  blocking : Blocking R
  waitEvent : Option (Except IoError Nat)
  meanwhile : Maps R → Maps R

def round (name : String) (rounds : Nat → Round R) (_ : Nat) (s : Maps R × Nat) :
    Option (Option (Answer R) × Maps R × Nat) :=
  let found := (rounds s.2).meanwhile s.1
  if .running = (rounds s.2).state then
    match poolWaitResult found name (rounds s.2).blocking with
    | some (.ok r, s') => some (some (.ok r), s', s.2 + 1)
    | some (.error _, s') => some (none, s', s.2 + 1)
    | none => none
  else
    match (rounds s.2).waitEvent with
    | some (.ok _) =>
      match tryGetResult found name with
      | (some r, s') => some (some (.ok (some r)), s', s.2 + 1)
      | (none, s') => some (none, s', s.2 + 1)
    | some (.error e) => some (some (.error e), found, s.2 + 1)
    | none => none

/-- `EventLoopImpl::wait_result`. -/
def waitResult (s : Maps R) (name : String) (waitTime : Nat) (rounds : Nat → Round R) :
    Option (Answer R × Maps R) :=
  (waitRounds (round name rounds) waitTime (s, 0)).map fun (answer, s, _) => (answer, s)

/-- `JoinHandleImpl::timeout_at_join`; the name is the task's, if it can be read. -/
def timeoutAtJoin (s : Maps R) (name : Option String) (timeoutTime now : Nat)
    (rounds : Nat → Round R) : Option (Except IoError R × Maps R) :=
  match name with
  | none | some "" => some (.error ⟨.invalidInput, "Invalid task name"⟩, s)
  | some name =>
    match waitResult s name (timeoutTime - now) rounds with
    | some (.ok (some r), s) => some (.ok r.2, s)
    | some (.error e, s) => some (.error e, s)
    | some (.ok none, _) | none => none

/-- The call returns what `found` has under the name and takes out this one entry. -/
def Delivers (found : Maps R) (name : String) (answer : Option (Answer R × Maps R)) : Prop :=
  ∃ r s', found.results name = some r ∧ answer = some (.ok (some (name, r)), s') ∧
    s'.results = update found.results name none

/-- Nobody takes the result of the task. -/
def Keeps (name : String) (meanwhile : Maps R → Maps R) : Prop :=
  ∀ s, s.results name ≠ none → (meanwhile s).results name ≠ none

def Round.Looks (r : Round R) : Prop := r.state = .running ∨ ∃ count, r.waitEvent = some (.ok count)

theorem tryGetResult_some {s : Maps R} {name : String} {r : R} (h : s.results name = some r) :
    tryGetResult s name = (some (name, r), { s with results := update s.results name none }) := by
  rw [tryGetResult, h, Option.map_some]

theorem poolWaitResult_some {s : Maps R} {name : String} {r : R} (h : s.results name = some r)
    (b : Blocking R) :
    ∃ s', poolWaitResult s name b = some (.ok (some (name, r)), s') ∧
      s'.results = update s.results name none := by
  rw [poolWaitResult, tryGetResult_some h]
  exact ⟨_, rfl, rfl⟩

theorem Round.not_looks {round : Round R} (hstate : round.state ≠ .running)
    (hevent : ∀ count, round.waitEvent ≠ some (.ok count)) : ¬ round.Looks := by
  rintro (hr | ⟨count, hc⟩)
  · exact hstate hr
  · exact hevent count hc

/-- A round that looks for the result finds it, and another one ends the call without it. -/
theorem round_cases {s : Maps R × Nat} {name : String} {r : R} (rounds : Nat → Round R) (time : Nat)
    (h : ((rounds s.2).meanwhile s.1).results name = some r) :
    (rounds s.2).Looks ∧ (∃ s', round name rounds time s = some (some (.ok (some (name, r))), s') ∧
        s'.1.results = update ((rounds s.2).meanwhile s.1).results name none) ∨
      ¬ (rounds s.2).Looks ∧ (round name rounds time s = none ∨
        ∃ e s', round name rounds time s = some (some (.error e), s')) := by
  by_cases hrunning : (rounds s.2).state = .running
  · obtain ⟨s', he, hs'⟩ := poolWaitResult_some h (rounds s.2).blocking
    refine .inl ⟨.inl hrunning, (s', s.2 + 1), ?_, hs'⟩
    simp only [round, if_pos hrunning.symm, he]
  · have hne : ¬ PoolState.running = (rounds s.2).state := fun he => hrunning he.symm
    cases hevent : (rounds s.2).waitEvent with
    | none =>
      refine .inr ⟨Round.not_looks hrunning (by simp [hevent]), .inl ?_⟩
      simp only [round, if_neg hne, hevent]
    | some result =>
      cases result with
      | error e =>
        refine .inr ⟨Round.not_looks hrunning (by simp [hevent]),
          .inr ⟨e, ((rounds s.2).meanwhile s.1, s.2 + 1), ?_⟩⟩
        simp only [round, if_neg hne, hevent]
      | ok count =>
        refine .inl ⟨.inr ⟨count, hevent⟩,
          ({ (rounds s.2).meanwhile s.1 with
            results := update ((rounds s.2).meanwhile s.1).results name none }, s.2 + 1), ?_, rfl⟩
        simp only [round, if_neg hne, hevent, tryGetResult_some h]

theorem waitResult_panics {s : Maps R} {name : String} {waitTime : Nat} {rounds : Nat → Round R}
    (hwait : waitTime ≠ 0) (h : round name rounds (min waitTime once) (s, 0) = none) :
    waitResult s name waitTime rounds = none := by
  rw [waitResult, waitRounds, if_neg hwait]
  show Option.map _ ((round name rounds (min waitTime once) (s, 0)).bind _) = _
  rw [h]
  rfl

theorem waitResult_first {s s' : Maps R} {name : String} {waitTime : Nat} {rounds : Nat → Round R}
    (hwait : waitTime ≠ 0) {answer : Answer R} {k : Nat}
    (h : round name rounds (min waitTime once) (s, 0) = some (some answer, s', k)) :
    waitResult s name waitTime rounds = some (answer, s') := by
  rw [waitResult, waitRounds, if_neg hwait]
  show Option.map _ ((round name rounds (min waitTime once) (s, 0)).bind _) = _
  rw [h]
  rfl

/-- The event loop's `wait_result` returns the result if there is time to wait and the first round
gets to look, and nothing otherwise. -/
theorem waitResult_cases {s : Maps R} {name : String} {r : R} {rounds : Nat → Round R}
    (h : ((rounds 0).meanwhile s).results name = some r) (waitTime : Nat) :
    (waitTime ≠ 0 ∧ (rounds 0).Looks) ∧
        (∃ s', waitResult s name waitTime rounds = some (.ok (some (name, r)), s') ∧
          s'.results = update ((rounds 0).meanwhile s).results name none) ∨
      ¬ (waitTime ≠ 0 ∧ (rounds 0).Looks) ∧ (waitResult s name waitTime rounds = none ∨
        ∃ e s', waitResult s name waitTime rounds = some (.error e, s')) := by
  by_cases hwait : waitTime = 0
  · refine .inr ⟨fun h => h.1 hwait, .inr ⟨⟨.timedOut, "wait timeout"⟩, s, ?_⟩⟩
    rw [waitResult, waitRounds, if_pos hwait]
    rfl
  · rcases round_cases (s := (s, 0)) rounds (min waitTime once) h with
      ⟨hlooks, ⟨s', k⟩, he, hs'⟩ | ⟨hno, he⟩
    · exact .inl ⟨⟨hwait, hlooks⟩, s', waitResult_first hwait he, hs'⟩
    · refine .inr ⟨fun h => hno h.2, ?_⟩
      rcases he with he | ⟨e, ⟨s', k⟩, he⟩
      · exact .inl (waitResult_panics hwait he)
      · exact .inr ⟨e, s', waitResult_first hwait he⟩

/-- A finished result that nobody else takes is delivered by the pool's `wait_result` always, and
by the event loop's if and only if there is time to wait and the first round gets to look. -/
theorem waitResult_delivers_iff {s : Maps R} {name : String} (hr : s.results name ≠ none)
    (waitTime : Nat) (rounds : Nat → Round R) (hkeeps : Keeps name (rounds 0).meanwhile)
    (b : Blocking R) :
    Delivers s name (poolWaitResult s name b) ∧
      (Delivers ((rounds 0).meanwhile s) name (waitResult s name waitTime rounds) ↔
        waitTime ≠ 0 ∧ (rounds 0).Looks) := by
  obtain ⟨r, hr'⟩ := Option.ne_none_iff_exists'.1 hr
  obtain ⟨r', hfound⟩ := Option.ne_none_iff_exists'.1 (hkeeps s hr)
  constructor
  · obtain ⟨s', he, hs'⟩ := poolWaitResult_some hr' b
    exact ⟨r, s', hr', he, hs'⟩
  · rcases waitResult_cases hfound waitTime with ⟨hwaits, s', he, hs'⟩ | ⟨hno, he⟩
    · exact iff_of_true ⟨r', s', hfound, he, hs'⟩ hwaits
    · refine iff_of_false ?_ hno
      rintro ⟨r, s', -, hanswer, -⟩
      rcases he with he | ⟨e, s'', he⟩
      · rw [he] at hanswer
        cases hanswer
      · rw [he] at hanswer
        cases hanswer

def finished : Maps Nat := ⟨fun name => if name = "a" then some 1 else none, fun _ => false⟩

/-- The loop is `Running` and nothing happens. -/
def still (_ : Nat) : Round Nat := ⟨.running, ⟨false, id, [], id⟩, some (.ok 0), id⟩

theorem waitResult_delivers_finished :
    Delivers finished "a" (poolWaitResult finished "a" ⟨false, id, [], id⟩) ∧
      (Delivers ((still 0).meanwhile finished) "a" (waitResult finished "a" 5 still) ↔
        5 ≠ 0 ∧ (still 0).Looks) :=
  waitResult_delivers_iff (by decide) 5 still (fun _ h => h) _

/-- A join whose deadline has just passed times out over a result that is there. -/
theorem join_misses_finished :
    finished.results "a" = some 1 ∧
      timeoutAtJoin finished (some "a") 5 5 still =
        some (.error ⟨.timedOut, "wait timeout"⟩, finished) ∧
      Delivers finished "a" (poolWaitResult finished "a" ⟨false, id, [], id⟩) ∧
      ¬ Delivers ((still 0).meanwhile finished) "a" (waitResult finished "a" 0 still) := by
  have hnone : waitResult finished "a" 0 still = some (timedOut, finished) := by
    rw [waitResult, waitRounds, if_pos rfl]
    rfl
  refine ⟨rfl, ?_, ⟨1, _, rfl, rfl, rfl⟩, ?_⟩
  · simp [timeoutAtJoin, hnone, timedOut]
  · rintro ⟨r, s', -, he, -⟩
    rw [hnone] at he
    cases he

end Join

end OpenCoroutine
