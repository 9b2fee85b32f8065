import OpenCoroutine.Forgetting

/-! The removals that the poller of a loop rejects, as on every loop that does not hold the
descriptor. A reregistration asks the poller before it touches a table, `del_event` when
the tokens of the descriptor are out already. -/

namespace OpenCoroutine

open Function Transition

namespace Tables

theorem removeTokens_eq_self {t : Tables} {fd : Fd} :
    t.removeTokens fd = t ↔ ∀ d, t.tokenRecords d fd = none := by
  constructor
  · intro h d
    rw [← h]
    exact if_pos rfl
  · intro h
    have hsame : (t.removeTokens fd).tokenRecords = t.tokenRecords := by
      funext d fd'
      by_cases he : fd' = fd
      · rw [he, h d]
        exact if_pos rfl
      · exact if_neg he
    calc t.removeTokens fd = { t with tokenRecords := (t.removeTokens fd).tokenRecords } := rfl
      _ = t := by rw [hsame]

end Tables

namespace SelectorImpl

/-- The poller turns down a delete of `fd`. -/
def Rejects (s : SelectorImpl) (fault : Fault) (fd : Fd) : Prop :=
  fault.delete = true ∨ s.poller fd = none

theorem delEvent_rejected {s : SelectorImpl} {fault : Fault} {fd : Fd}
    (hr : s.tables.recorded fd = true) (h : s.Rejects fault fd) :
    s.delEvent fault fd = (.err, { s with tables := s.tables.removeTokens fd }) := by
  have hp : (fault.delete || (s.poller fd).isNone) = true := by
    rw [Bool.or_eq_true, Option.isNone_iff_eq_none]
    exact h
  rw [Tables.recorded] at hr
  simp [delEvent, hr, deregister, Poller.delete, hp]

theorem delEvent_err {s : SelectorImpl} {fault : Fault} {fd : Fd}
    (h : (s.delEvent fault fd).1 = .err) : s.tables.recorded fd = true ∧ s.Rejects fault fd := by
  by_cases hr : s.tables.recorded fd = true
  · refine ⟨hr, ?_⟩
    by_contra hnot
    obtain ⟨hd, hp⟩ := not_or.1 hnot
    rw [Tables.recorded] at hr
    simp [delEvent, hr, deregister, Poller.delete, hd, hp] at h
  · have hr' : s.tables.recorded fd = false := by simpa using hr
    rw [Tables.recorded] at hr'
    simp [delEvent, hr'] at h

/-- An error of `del_event` leaves the tables alone if there was no token to take out. -/
theorem delEvent_clean_iff (s : SelectorImpl) (fault : Fault) (fd : Fd) :
    ((s.delEvent fault fd).1 = .err → (s.delEvent fault fd).2.tables = s.tables) ↔
      (s.tables.recorded fd = true → s.Rejects fault fd →
        ∀ d, s.tables.tokenRecords d fd = none) := by
  constructor
  · intro hclean hr hrejects
    rw [delEvent_rejected hr hrejects] at hclean
    exact Tables.removeTokens_eq_self.1 (hclean rfl)
  · intro htokens herr
    obtain ⟨hr, hrejects⟩ := delEvent_err herr
    rw [delEvent_rejected hr hrejects]
    exact Tables.removeTokens_eq_self.2 (htokens hr hrejects)

/-- With both interests recorded nothing is lost. -/
theorem delInterest_clean_iff (d : Direction) (s : SelectorImpl) (fault : Fault) (fd : Fd) :
    ((delInterest d s fault fd).1 = .err → (delInterest d s fault fd).2.tables = s.tables) ↔
      (s.tables.records d fd = true → s.tables.records d.other fd = false →
        s.Rejects fault fd → ∀ d', s.tables.tokenRecords d' fd = none) := by
  rcases s.delInterest_eq d fault fd with
    ⟨hd, hr⟩ | ⟨hd, ho, hr⟩ | ⟨-, ho, hr | ⟨token, outcome, r, -, hne, -, hr⟩⟩
  · rw [hr, hd]
    refine iff_of_true (fun herr => ?_) (fun hrecorded => ?_)
    · cases herr
    · cases hrecorded
  · have hrecorded : s.tables.recorded fd = true := by
      cases d <;> simp [Tables.recorded, hd]
    rw [hr, delEvent_clean_iff]
    exact ⟨fun h _ _ => h hrecorded, fun h _ => h hd ho⟩
  · refine iff_of_true (fun _ => by rw [hr]) (fun _ halone => ?_)
    rw [ho] at halone
    cases halone
  · rw [hr]
    refine iff_of_true (fun herr => absurd herr hne) (fun _ halone => ?_)
    rw [ho] at halone
    cases halone

end SelectorImpl

namespace EventLoops

variable {ι θ : Type*} {m n : Nat}

/-- What a removal returns, and the selector of its loop after it. -/
def removal (s : EventLoops ι θ m n) : Act ι θ m → Option (Outcome × SelectorImpl)
  | .delInterest j d fd fault => some ((s.selector j).delInterest d fault fd)
  | .delEvent j fd fault => some ((s.selector j).delEvent fault fd)
  | .world _ | .next _ | .reset | .addEvent .. | .select .. | .wake .. => none

/-- A removal that returns an error leaves all the tables as they were. -/
def FailsCleanly (s : EventLoops ι θ m n) (a : Act ι θ m) : Prop :=
  ∀ r, s.removal a = some r → r.1 = .err → r.2.tables = s.tables

/-- A delete that the poller rejects finds no token of the descriptor. -/
def TakesNoToken (s : EventLoops ι θ m n) : Act ι θ m → Prop
  | .delInterest j d fd fault =>
    s.tables.records d fd = true → s.tables.records d.other fd = false →
      (s.selector j).Rejects fault fd → ∀ d', s.tables.tokenRecords d' fd = none
  | .delEvent j fd fault =>
    s.tables.recorded fd = true → (s.selector j).Rejects fault fd →
      ∀ d, s.tables.tokenRecords d fd = none
  | .world _ | .next _ | .reset | .addEvent .. | .select .. | .wake .. => True

theorem failsCleanly_iff (s : EventLoops ι θ m n) (a : Act ι θ m) :
    s.FailsCleanly a ↔ s.TakesNoToken a := by
  cases a with
  | delInterest j d fd fault =>
    rw [FailsCleanly, removal]
    simp only [Option.some.injEq, forall_eq']
    exact (s.selector j).delInterest_clean_iff d fault fd
  | delEvent j fd fault =>
    rw [FailsCleanly, removal]
    simp only [Option.some.injEq, forall_eq']
    exact (s.selector j).delEvent_clean_iff fault fd
  | world | next | reset | addEvent | select | wake => exact iff_of_true nofun trivial

variable [DecidableEq ι] [DecidableEq θ] (now : Nat → Nat) (pool : Fin m → ι)

/-- The removals that fail in a run all leave the tables as they were if and only if no
delete is rejected for a descriptor that has a token recorded. -/
theorem failed_removals_clean_iff (s₀ : EventLoops ι θ m n) (as : List (Act ι θ m)) :
    Guarded (step now pool) FailsCleanly s₀ as ↔ Guarded (step now pool) TakesNoToken s₀ as :=
  guarded_iff (fun _ => True) (fun _ _ _ _ _ _ => trivial) (fun s a _ => s.failsCleanly_iff a)
    trivial as

/-- Loop 1 holds the descriptor, and the delete goes to loop 2. -/
theorem rejected_delete_takes_token :
    ¬ Guarded (step id id) FailsCleanly (three 1)
      [.next false, .addEvent 1 1 .readable 7 .none 100 99, .next false, .delEvent 2 7 .none] := by
  intro h
  have hlast := (((h.2 _ rfl).2 _ rfl).2 _ rfl).1 _ rfl rfl
  have htoken := congrArg (fun t => t.tokenRecords .readable 7) hlast
  cases htoken

end EventLoops

end OpenCoroutine
