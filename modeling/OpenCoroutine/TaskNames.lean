import OpenCoroutine.CString
import OpenCoroutine.Join
import OpenCoroutine.Tasks

/-! The name of a task from `submit` to the join of its handle, for the handles of a pool
and of an event loop. A handle keeps the name as a pointer to a leaked C string. The call
that panics comes to `none`, and the task is queued before the handle is made. -/

namespace OpenCoroutine

open Tasks (TaskImpl)

namespace Join

variable {R : Type}

/-- What lies behind the name pointer of a `JoinHandleImpl`. -/
structure JoinHandle where
  memory : List UInt8

def invalidName : IoError := ⟨.invalidInput, "Invalid task name"⟩

namespace JoinHandle

/-- `JoinHandleImpl::new`; its `expect` fails at `none`. -/
def new (name : String) : Option JoinHandle := (CString.ofString name).map fun c => ⟨c.memory⟩

def getName (h : JoinHandle) : Except IoError String :=
  match CString.toStr (CString.fromPtr h.memory) with
  | some name => .ok name
  | none => .error invalidName

theorem getName_new {name : String} {h : JoinHandle} (hnew : new name = some h) :
    h.getName = .ok name := by
  rw [new, Option.map_eq_some_iff] at hnew
  obtain ⟨c, hc, rfl⟩ := hnew
  rw [getName, CString.toStr_fromPtr hc]

theorem new_eq_none {name : String} : new name = none ↔ '\x00' ∈ name.toList := by
  rw [new, Option.map_eq_none_iff, CString.ofString_eq_none]

end JoinHandle

inductive Owner where
  | pool
  | eventLoop
  deriving DecidableEq, Repr

def poolSubmitRaw (queue : List TaskImpl) (task : TaskImpl) : Option JoinHandle × List TaskImpl :=
  (JoinHandle.new task.name, queue ++ [task])

def eventLoopSubmitRaw (queue : List TaskImpl) (task : TaskImpl) :
    Option JoinHandle × List TaskImpl :=
  match poolSubmitRaw queue task with
  | (none, queue) => (none, queue)
  | (some handle, queue) =>
    match handle.getName with
    | .ok taskName => (JoinHandle.new taskName, queue)
    | .error _ => (none, queue)

def submitRaw : Owner → List TaskImpl → TaskImpl → Option JoinHandle × List TaskImpl
  | .pool => poolSubmitRaw
  | .eventLoop => eventLoopSubmitRaw

/-- `timeout_at_join` of a pool's handle. -/
def poolTimeoutAtJoin (s : Maps R) (name : Option String) (b : Blocking R) :
    Option (Except IoError R × Maps R) :=
  match name with
  | none | some "" => some (.error invalidName, s)
  | some name =>
    match poolWaitResult s name b with
    | some (.ok (some r), s) => some (.ok r.2, s)
    | some (.error e, s) => some (.error e, s)
    | some (.ok none, _) | none => none

/-- The deadline of a join and what happens while it waits. -/
structure Waiting (R : Type) where
  timeoutTime : Nat
  now : Nat
  blocking : Blocking R
  rounds : Nat → Round R

def join (o : Owner) (s : Maps R) (h : JoinHandle) (w : Waiting R) :
    Option (Except IoError R × Maps R) :=
  match o with
  | .pool => poolTimeoutAtJoin s h.getName.toOption w.blocking
  | .eventLoop => timeoutAtJoin s h.getName.toOption w.timeoutTime w.now w.rounds

/-- Both kinds of handle are made from the name or not at all, with the task in the queue. -/
theorem submitRaw_eq (o : Owner) (queue : List TaskImpl) (task : TaskImpl) :
    submitRaw o queue task = (JoinHandle.new task.name, queue ++ [task]) := by
  cases o with
  | pool => rfl
  | eventLoop =>
    rw [submitRaw, eventLoopSubmitRaw, poolSubmitRaw]
    cases hnew : JoinHandle.new task.name with
    | none => rfl
    | some handle => simp only [JoinHandle.getName_new hnew, hnew]

theorem poolTimeoutAtJoin_finished {s : Maps R} {name : String} {r : R}
    (hr : s.results name = some r) (b : Blocking R) :
    (∃ s', poolTimeoutAtJoin s (some name) b = some (.ok r, s')) ↔ name ≠ "" := by
  by_cases hempty : name = ""
  · subst hempty
    exact iff_of_false (by rintro ⟨s', h⟩; cases h) (fun h => h rfl)
  · obtain ⟨s', he, -⟩ := poolWaitResult_some hr b
    refine iff_of_true ⟨s', ?_⟩ hempty
    simp [poolTimeoutAtJoin, he]

theorem timeoutAtJoin_finished {s : Maps R} {name : String} {r : R} {rounds : Nat → Round R}
    (hr : ((rounds 0).meanwhile s).results name = some r) (timeoutTime now : Nat) :
    (∃ s', timeoutAtJoin s (some name) timeoutTime now rounds = some (.ok r, s')) ↔
      name ≠ "" ∧ now < timeoutTime ∧ (rounds 0).Looks := by
  by_cases hempty : name = ""
  · subst hempty
    exact iff_of_false (by rintro ⟨s', h⟩; cases h) (fun h => h.1 rfl)
  · have hleft : timeoutTime - now ≠ 0 ↔ now < timeoutTime := by omega
    rw [← hleft]
    rcases waitResult_cases hr (timeoutTime - now) with ⟨hwaits, s', he, -⟩ | ⟨hno, he⟩
    · refine iff_of_true ⟨s', ?_⟩ ⟨hempty, hwaits⟩
      simp [timeoutAtJoin, he]
    · refine iff_of_false ?_ fun h => hno h.2
      rintro ⟨s', hjoin⟩
      rcases he with he | ⟨e, s'', he⟩ <;> simp [timeoutAtJoin, he] at hjoin

/-- The join is in time, which the pool's always is for a result that is there. -/
def InTime (w : Waiting R) : Owner → Prop
  | .pool => True
  | .eventLoop => w.now < w.timeoutTime ∧ (w.rounds 0).Looks

theorem join_finished (o : Owner) {s : Maps R} {w : Waiting R} {h : JoinHandle} {name : String}
    {r : R} (hname : h.getName = .ok name) (hr : s.results name = some r)
    (hkept : o = .eventLoop → ((w.rounds 0).meanwhile s).results name = some r) :
    (∃ s', join o s h w = some (.ok r, s')) ↔ name ≠ "" ∧ InTime w o := by
  cases o with
  | pool =>
    rw [InTime, and_true, ← poolTimeoutAtJoin_finished hr w.blocking]
    simp only [join, hname]
    rfl
  | eventLoop =>
    rw [InTime, ← timeoutAtJoin_finished (hkept rfl) w.timeoutTime w.now]
    simp only [join, hname]
    rfl

/-- `submit` returns a handle with the name of the task, and once the task has run a join of
the handle returns its result. -/
def NameSurvives (o : Owner) (queue : List TaskImpl) (task : TaskImpl) (s : Maps R) (r : R)
    (w : Waiting R) : Prop :=
  ∃ h, submitRaw o queue task = (some h, queue ++ [task]) ∧ h.getName = .ok task.name ∧
    ∃ s', join o s h w = some (.ok r, s')

/-- A name survives if and only if it is neither empty nor has a NUL in it, and the join of an
event loop's handle is in time. -/
theorem name_survives_iff (o : Owner) (queue : List TaskImpl) (task : TaskImpl) {s : Maps R} {r : R}
    {w : Waiting R} (hr : s.results task.name = some r)
    (hkept : o = .eventLoop → ((w.rounds 0).meanwhile s).results task.name = some r) :
    NameSurvives o queue task s r w ↔
      '\x00' ∉ task.name.toList ∧ task.name ≠ "" ∧ InTime w o := by
  rw [NameSurvives, submitRaw_eq]
  constructor
  · rintro ⟨h, hsubmit, hname, hjoin⟩
    have hnew : JoinHandle.new task.name = some h := congrArg Prod.fst hsubmit
    refine ⟨fun hnul => ?_, (join_finished o hname hr hkept).1 hjoin⟩
    rw [JoinHandle.new_eq_none.2 hnul] at hnew
    cases hnew
  · rintro ⟨hnul, hrest⟩
    have hsome : JoinHandle.new task.name ≠ none := fun h => hnul (JoinHandle.new_eq_none.1 h)
    obtain ⟨h, hnew⟩ := Option.ne_none_iff_exists'.1 hsome
    have hname := JoinHandle.getName_new hnew
    exact ⟨h, by rw [hnew], hname, (join_finished o hname hr hkept).2 hrest⟩

theorem name_survives_plain :
    NameSurvives .eventLoop [] ⟨0, "a"⟩ finished 1 ⟨7, 5, ⟨false, id, [], id⟩, still⟩ ↔
      '\x00' ∉ "a".toList ∧ "a" ≠ "" ∧
        InTime ⟨7, 5, ⟨false, id, [], id⟩, still⟩ .eventLoop :=
  name_survives_iff .eventLoop [] ⟨0, "a"⟩ (by decide) fun _ => by decide

/-- The panic comes after the task has been queued. -/
theorem submitRaw_nul (o : Owner) (queue : List TaskImpl) {task : TaskImpl}
    (h : '\x00' ∈ task.name.toList) : submitRaw o queue task = (none, queue ++ [task]) := by
  rw [submitRaw_eq, JoinHandle.new_eq_none.2 h]

/-- A handle for the empty name is one that `JoinHandleImpl::error` makes. -/
theorem join_empty (o : Owner) (s : Maps R) {h : JoinHandle} (hname : h.getName = .ok "")
    (w : Waiting R) : join o s h w = some (.error invalidName, s) := by
  cases o <;> rw [join, hname] <;> rfl

def everywhere : Maps Nat := ⟨fun _ => some 1, fun _ => false⟩

theorem names_lost :
    submitRaw .pool [] ⟨0, "a\x00b"⟩ = (none, [⟨0, "a\x00b"⟩]) ∧
      ∃ h, submitRaw .pool [] ⟨0, ""⟩ = (some h, [⟨0, ""⟩]) ∧
        join .pool everywhere h ⟨7, 5, ⟨false, id, [], id⟩, still⟩ =
          some (.error ⟨.invalidInput, "Invalid task name"⟩, everywhere) := by
  refine ⟨submitRaw_nul .pool [] (by decide), ?_⟩
  have hsome : JoinHandle.new "" ≠ none := fun h => by simp [JoinHandle.new_eq_none] at h
  obtain ⟨h, hnew⟩ := Option.ne_none_iff_exists'.1 hsome
  exact ⟨h, by rw [submitRaw_eq, hnew]; rfl,
    join_empty .pool everywhere (JoinHandle.getName_new hnew) _⟩

end Join

end OpenCoroutine
