import OpenCoroutine.Retry
import OpenCoroutine.Transfers

/-! Hooked calls that overlap, on whatever they read from, write to or accept on. Inner calls and
waits are steps of their own, and between them any other coroutine may make its own. What stands
inside `impl_non_blocking!` is followed here, by the rounds that `loop` has had so far. -/

namespace OpenCoroutine

open Transition

namespace Nio

/-- A hooked call at work. `blocked` is the answer that it waits after. -/
structure Working where
  errno : Int32
  call : IoCall
  rounds : List Round := []
  blocked : Option (Int64 × Int32) := none

namespace Working

/-- What the call returns, and the `errno` of its last inner call. A call that gives up after a
wait has no result, as one that returns without an inner call. -/
def result (p : Working) (r : Int64) : Option (Int64 × Int32) :=
  p.rounds.getLast?.bind fun round =>
    if round.r = -1 ∧ round.errno = EAGAIN then none else some (r, round.errno)

def todo (p : Working) : Retry.Todo IoCall (Int64 × Int32) :=
  match p.blocked with
  | some _ => .pause
  | none =>
    match (loop p.rounds p.errno p.call).ending, (loop p.rounds p.errno p.call).calls.getLast? with
    | .running, some call => .ask call
    | .returned r _, _ => .done (p.result r)
    -- the loops neither panic nor leave by a `return`
    | _, _ => .done none

def concat (p : Working) (round : Round) : Working :=
  { p with rounds := p.rounds ++ [round], blocked := none }

def answer (p : Working) (a : Int64 × Int32) : Working :=
  if a = (-1, EAGAIN) then { p with blocked := some a } else p.concat ⟨a.1, a.2, false, 0⟩

def wake (p : Working) (w : Bool × Int32) : Working :=
  match p.blocked with
  | none => p
  | some a => p.concat ⟨a.1, a.2, w.1, w.2⟩

end Working

def program : Retry.Program (Int32 × IoCall) Working IoCall (Int64 × Int32) (Bool × Int32)
    (Int64 × Int32) where
  start o := { errno := o.1, call := o.2 }
  todo := Working.todo
  answer := Working.answer
  wake := Working.wake

/-- What the calls act on, with the memory of the program. An inner call that would block or is
interrupted changes nothing, and empty `iovec`s at the head of a request make no difference. -/
structure Device (κ ε : Type*) where
  effect : κ → IoCall → Int64 × Int32 → Option κ
  beside : κ → ε → Option κ
  again : ∀ k call errno k', errno = EAGAIN ∨ errno = EINTR →
    effect k call (-1, errno) = some k' → k' = k
  rest : ∀ k (call call' : IoCall) a, call.Rest 0 call' → effect k call' a = effect k call a

def Device.object {κ ε : Type*} (D : Device κ ε) :
    Retry.Object κ (Int32 × IoCall) IoCall (Int64 × Int32) (Int64 × Int32) ε :=
  ⟨D.effect, fun k o => D.effect k o.2, D.beside⟩

/-- The call has entered its loop, and has been turned away each time so far. -/
structure Turned (o : Int32 × IoCall) (p : Working) : Prop where
  call : p.call = o.2
  entered : p.call.isTransfer = true → 0 < p.call.length
  rounds : ∀ round ∈ p.rounds, round.retries = true
  blocked : ∀ a, p.blocked = some a → a = (-1, EAGAIN)

variable {p : Working} {o : Int32 × IoCall}

theorem turns_of_retries {rounds : List Round} (h : ∀ round ∈ rounds, round.retries = true) :
    turns rounds = rounds.length + 1 := by
  induction rounds with
  | nil => rfl
  | cons round rounds ih =>
    rw [turns, if_pos (h round List.mem_cons_self), List.length_cons,
      ih fun round' hr => h round' (List.mem_cons_of_mem _ hr)]

theorem ending_of_retries {rounds : List Round} (h : ∀ round ∈ rounds, round.retries = true)
    (rounds' : List Round) : ending (rounds ++ rounds') = ending rounds' := by
  induction rounds with
  | nil => rfl
  | cons round rounds ih =>
    rw [List.cons_append, ending, if_pos (h round List.mem_cons_self),
      ih fun round' hr => h round' (List.mem_cons_of_mem _ hr)]

/-- It makes its next inner call, for the whole request. -/
theorem Turned.asks (h : Turned o p) (hb : p.blocked = none) :
    ∃ call, p.todo = .ask call ∧ p.call.Rest 0 call := by
  have hl := loop_looped h.entered p.rounds p.errno
  have hend : (loop p.rounds p.errno p.call).ending = .running := by
    rw [hl.ending, ← List.append_nil p.rounds, ending_of_retries h.rounds]
    rfl
  have hne : (loop p.rounds p.errno p.call).calls ≠ [] := by
    intro hnil
    have hturns := hl.turns
    rw [hnil, turns_of_retries h.rounds] at hturns
    cases hturns
  obtain ⟨call, hlast⟩ := Option.ne_none_iff_exists'.1 fun hnone =>
    hne (List.getLast?_eq_none_iff.1 hnone)
  refine ⟨call, ?_, hl.rest call (List.mem_of_getLast? hlast)⟩
  simp only [Working.todo, hb, hend, hlast]

theorem Turned.todo_cases (h : Turned o p) :
    p.todo = .pause ∨ p.blocked = none ∧ ∃ call, p.todo = .ask call ∧ p.call.Rest 0 call := by
  cases hb : p.blocked with
  | none => exact .inr ⟨rfl, h.asks hb⟩
  | some a =>
    left
    simp only [Working.todo, hb]

/-- The round in which it is not turned away is its last. -/
theorem Turned.last (h : Turned o p) {round : Round} (hr : round.retries = false) :
    (p.concat round).todo = .done
      (if round.r = -1 ∧ round.errno = EAGAIN then none else some (round.r, round.errno)) := by
  obtain ⟨errno, hlast⟩ := round.last_returned
  have hl := loop_looped h.entered (p.rounds ++ [round]) p.errno
  have hend : (loop (p.rounds ++ [round]) p.errno p.call).ending = .returned round.r errno := by
    rw [hl.ending, ending_of_retries h.rounds, ending, hr, if_neg Bool.false_ne_true, hlast]
  simp only [Working.todo, Working.concat, hend, Working.result, List.getLast?_concat,
    Option.bind_some]

theorem Turned.concat (h : Turned o p) {round : Round} (hr : round.retries = true) :
    Turned o (p.concat round) where
  call := h.call
  entered := h.entered
  rounds round' hm := by
    rcases List.mem_append.1 hm with hm | hm
    · exact h.rounds round' hm
    · rw [List.mem_singleton.1 hm]
      exact hr
  blocked a ha := by cases ha

variable {κ ε : Type*} (D : Device κ ε)

theorem program_retries : Retry.Retries program D.object Turned where
  start o := by
    by_cases hlength : o.2.isTransfer = true → 0 < o.2.length
    · exact .inl ⟨rfl, hlength, fun _ hr => absurd hr List.not_mem_nil, fun _ hb => by cases hb⟩
    · right
      rw [Classical.not_imp, UInt64.not_lt, UInt64.le_zero_iff] at hlength
      simp only [program, Working.todo, loop_idle hlength.1 hlength.2, Working.result]
      rfl
  goes o p w h hd := by
    have hd' : p.todo = .done (some w) := hd
    rcases h.todo_cases with hp | ⟨-, call, hp, -⟩
    · rw [hp] at hd'
      cases hd'
    · rw [hp] at hd'
      cases hd'
  ask o p request a k k' h hask hk := by
    have hask' : p.todo = .ask request := hask
    rcases h.todo_cases with hp | ⟨hb, call, hp, hrest⟩
    · rw [hp] at hask'
      cases hask'
    · rw [hp, Retry.Todo.ask.injEq] at hask'
      subst hask'
      by_cases ha : a = (-1, EAGAIN)
      · subst ha
        refine .inl ⟨D.again k call EAGAIN k' (.inl rfl) hk, .inl ?_⟩
        simp only [program, Working.answer, if_pos]
        refine ⟨h.call, h.entered, h.rounds, fun b hb' => ?_⟩
        cases hb'
        rfl
      · simp only [program, Working.answer, if_neg ha]
        by_cases hr : (⟨a.1, a.2, false, 0⟩ : Round).retries = true
        · refine .inl ⟨?_, .inl (h.concat hr)⟩
          simp only [Round.retries, Bool.and_false, Bool.false_or, Bool.and_eq_true,
            beq_iff_eq] at hr
          refine D.again k call a.2 k' (.inr hr.2) ?_
          rw [← hr.1]
          exact hk
        · refine .inr ⟨a, ?_, ?_⟩
          · have hlast := h.last (Bool.eq_false_iff.2 hr)
            rw [if_neg fun hc => ha (Prod.ext hc.1 hc.2)] at hlast
            exact hlast
          · rw [← hk]
            exact (D.rest k o.2 call a (h.call ▸ hrest)).symm
  pause o p w h hpause := by
    cases hb : p.blocked with
    | none =>
      obtain ⟨call, hp, -⟩ := h.asks hb
      have hpause' : p.todo = .pause := hpause
      rw [hp] at hpause'
      cases hpause'
    | some a =>
      have ha := h.blocked a hb
      subst ha
      simp only [program, Working.wake, hb]
      by_cases hr : (⟨-1, EAGAIN, w.1, w.2⟩ : Round).retries = true
      · exact .inl (h.concat hr)
      · right
        rw [h.last (Bool.eq_false_iff.2 hr), if_pos ⟨rfl, rfl⟩]

variable {D} {ι : Type*} [DecidableEq ι] {k₀ : κ}
  {s : Retry.State ι κ (Int32 × IoCall) Working (Int64 × Int32) ε}

/-- However hooked calls overlap, they act as if each had been made as a plain call, with the
result that it returns, when it returned. Calls that give up after a wait have done nothing. -/
theorem calls_linearizable (h : Reaches (Retry.step program D.object) Free { object := k₀ } s) :
    run (Retry.plain D.object) k₀ s.log.reverse = some s.object :=
  Retry.object_plain (program_retries D) h

theorem IoCall.Rest.isTransfer {call call' : IoCall} (h : call.Rest 0 call') :
    call'.isTransfer = call.isTransfer := by
  have hbeside : ∀ c : IoCall, c.isTransfer = (c.beside 0).isTransfer := fun c => by
    cases c <;> rfl
  rw [hbeside call', hbeside call, h.beside]

/-- A listening socket, with the connections that wait to be accepted. -/
def backlog : Device (List Int64) Int64 where
  effect k call a :=
    if a.1 = -1 then some k
    else if call.isTransfer then none
    else if k.head? = some a.1 then some k.tail
    else none
  beside k connection := some (k ++ [connection])
  again k call errno k' _ h := by
    rw [if_pos rfl] at h
    exact (Option.some.inj h).symm
  rest k call call' a h := by
    rw [h.isTransfer]

/-- One acceptor finds nothing and waits, and another one is interrupted. -/
def accepted (i j : ι) :
    List (Retry.Act ι (Int32 × IoCall) (Int64 × Int32) (Bool × Int32) Int64) :=
  [.enter i (0, .accept 0 0), .answer i (-1, EAGAIN), .enter j (0, .accept4 0 0 0),
    .answer j (-1, EINTR), .beside 7, .beside 8, .answer j (7, 0), .wake i (true, 0),
    .answer i (8, 0)]

theorem calls_linearizable_accepted :
    ∃ s : Retry.State Bool (List Int64) (Int32 × IoCall) Working (Int64 × Int32) Int64,
      s.log.length = 4 ∧ s.object = [] ∧
        run (Retry.plain backlog.object) [] s.log.reverse = some s.object := by
  obtain ⟨s, h, hlog, hobject⟩ :
      ∃ s : Retry.State Bool (List Int64) (Int32 × IoCall) Working (Int64 × Int32) Int64,
        Reaches (Retry.step program backlog.object) Free { object := [] } s ∧
          s.log.length = 4 ∧ s.object = [] :=
    ⟨_, Reaches.of_run (accepted true false) rfl (guarded_free _), rfl, rfl⟩
  exact ⟨s, hlog, hobject, calls_linearizable h⟩

end Nio

end OpenCoroutine
