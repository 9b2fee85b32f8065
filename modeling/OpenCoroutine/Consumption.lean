import OpenCoroutine.Readiness
import OpenCoroutine.Tokens

/-! What `select` takes out of the token records. It finds the descriptor of an event
through `TOKEN_FD`, whose entry goes with the first event under the key, while the
registration in the poller stays and goes on to produce events. -/

namespace OpenCoroutine

open Function Transition

namespace Tables

/-- The descriptor that `select` takes an event to be about, after the events before it in
the batch. -/
def found (t : Tables) (earlier : List Event) (event : Event) : Fd :=
  if event.key ∈ earlier.map Event.key then 0 else (t.tokenFd event.key).getD 0

theorem tokenFd_select (events : List Event) (t : Tables) (key : Nat) :
    (events.foldl select t).tokenFd key =
      if key ∈ events.map Event.key then none else t.tokenFd key := by
  induction events generalizing t with
  | nil => rfl
  | cons event events ih =>
    rw [List.foldl_cons, ih (t.select event)]
    by_cases he : key = event.key
    · simp [select, he]
    · simp [select, he]

theorem found_eq (events : List Event) (t : Tables) (event : Event) :
    ((events.foldl select t).tokenFd event.key).getD 0 = t.found events event := by
  rw [tokenFd_select, found]
  split <;> rfl

/-- A token is gone after a batch if it was not there or some event was taken to be about
its descriptor. -/
theorem tokenRecords_select_eq_none (t : Tables) (d : Direction) (fd : Fd) (events : List Event) :
    (events.foldl select t).tokenRecords d fd = none ↔
      t.tokenRecords d fd = none ∨
        ∃ earlier event later, events = earlier ++ event :: later ∧ event.holds d = true ∧
          t.found earlier event = fd := by
  induction events using List.reverseRecOn with
  | nil => simp
  | append_singleton events last ih =>
    rw [List.foldl_append, List.foldl_cons, List.foldl_nil]
    have hlast : ((events.foldl select t).select last).tokenRecords d fd =
        if last.holds d = true ∧ fd = t.found events last then none
        else (events.foldl select t).tokenRecords d fd := by
      rw [← found_eq]
      rfl
    rw [hlast]
    constructor
    · intro h
      by_cases hhit : last.holds d = true ∧ fd = t.found events last
      · exact .inr ⟨events, last, [], rfl, hhit.1, hhit.2.symm⟩
      · rw [if_neg hhit] at h
        rcases ih.1 h with hnone | ⟨earlier, event, later, rfl, hd, hf⟩
        · exact .inl hnone
        · exact .inr ⟨earlier, event, later ++ [last], by simp, hd, hf⟩
    · intro h
      split
      · rfl
      · rename_i hmiss
        refine ih.2 (h.imp_right ?_)
        rintro ⟨earlier, event, later, he, hd, hf⟩
        rcases later.eq_nil_or_concat with rfl | ⟨later, last', rfl⟩
        · obtain ⟨rfl, hevent⟩ := List.append_inj' he rfl
          cases hevent
          exact absurd ⟨hd, hf.symm⟩ hmiss
        · rw [List.concat_eq_append, ← List.cons_append, ← List.append_assoc] at he
          exact ⟨earlier, event, later, (List.append_inj' he rfl).1, hd, hf⟩

end Tables

namespace EventLoops

variable {ι θ : Type*} {m n : Nat}

/-- The registration of `fd` produced an event of direction `d` in the batch. -/
def Produced (ready : List (Fd × Bool × Bool)) : Direction → Fd → Prop
  | .readable, fd => ∃ writable, (fd, true, writable) ∈ ready
  | .writable, fd => ∃ readable, (fd, readable, true) ∈ ready

def reports (s : EventLoops ι θ m n) (j : Fin m) (ready : List (Fd × Bool × Bool)) :
    Option (List Event) :=
  ready.mapM fun r => (s.pollers j).report r.1 r.2.1 r.2.2

/-- `select` takes no token of a descriptor that had no event of the direction. -/
def TakesOwn (s : EventLoops ι θ m n) : Act ι θ m → Prop
  | .select j ready => ∀ events, s.reports j ready = some events → ∀ d fd,
      s.tables.tokenRecords d fd ≠ none →
        ((s.selector j).select events).tables.tokenRecords d fd = none → Produced ready d fd
  | .world _ | .next _ | .reset | .addEvent .. | .delInterest .. | .delEvent .. | .wake .. => True

/-- Each event is taken to be about a descriptor that has no token left to lose, or that
itself had an event of the direction. -/
def Resolves (s : EventLoops ι θ m n) : Act ι θ m → Prop
  | .select j ready => ∀ events, s.reports j ready = some events →
      ∀ earlier event later d, events = earlier ++ event :: later → event.holds d = true →
        s.tables.tokenRecords d (s.tables.found earlier event) = none ∨
          Produced ready d (s.tables.found earlier event)
  | .world _ | .next _ | .reset | .addEvent .. | .delInterest .. | .delEvent .. | .wake .. => True

theorem takesOwn_iff (s : EventLoops ι θ m n) (a : Act ι θ m) : s.TakesOwn a ↔ s.Resolves a := by
  cases a with
  | select j ready =>
    refine forall_congr' fun events => forall_congr' fun _ => ?_
    have hgone := fun d fd => s.tables.tokenRecords_select_eq_none d fd events
    constructor
    · intro hown earlier event later d he hd
      by_cases htoken : s.tables.tokenRecords d (s.tables.found earlier event) = none
      · exact .inl htoken
      · refine .inr (hown d _ htoken ((hgone d _).2 (.inr ?_)))
        exact ⟨earlier, event, later, he, hd, rfl⟩
    · intro hresolves d fd htoken hnone
      rcases (hgone d fd).1 hnone with h | ⟨earlier, event, later, he, hd, rfl⟩
      · exact absurd h htoken
      · exact (hresolves earlier event later d he hd).resolve_left htoken
  | world | next | reset | addEvent | delInterest | delEvent | wake => exact Iff.rfl

variable [DecidableEq ι] [DecidableEq θ] (now : Nat → Nat) (pool : Fin m → ι)

/-- The calls of `select` in a run take only tokens of descriptors with an event of the
direction if and only if each event leads `TOKEN_FD` to such a descriptor, or to one without
a token. -/
theorem select_takes_own_iff (s₀ : EventLoops ι θ m n) (as : List (Act ι θ m)) :
    Guarded (step now pool) TakesOwn s₀ as ↔ Guarded (step now pool) Resolves s₀ as :=
  guarded_iff (fun _ => True) (fun _ _ _ _ _ _ => trivial) (fun s a _ => s.takesOwn_iff a)
    trivial as

/-- Descriptor 5 becomes readable twice, and descriptor 0 waits on another loop. -/
theorem select_takes_from_zero :
    ¬ Guarded (step id id) TakesOwn (three 1)
      [.next false, .addEvent 1 1 .readable 5 .none 100 11, .next false,
        .addEvent 2 2 .readable 0 .none 101 22, .select 1 [(5, true, false)],
        .select 1 [(5, true, false)]] := by
  intro h
  have hlast := (((((h.2 _ rfl).2 _ rfl).2 _ rfl).2 _ rfl).2 _ rfl).1
  obtain ⟨writable, hmem⟩ := hlast _ rfl .readable 0 (by decide) (by decide)
  simp at hmem

end EventLoops

end OpenCoroutine
