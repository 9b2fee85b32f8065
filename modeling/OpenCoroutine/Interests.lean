import OpenCoroutine.Tokens

/-! The interest records against the poller, over every history of one selector. The
records of a descriptor are the interests that the poller holds for it, whatever has
failed; the tokens of these interests are lost to `select` and to a `del_event` that
fails, and a delete that finds its token gone panics. -/

namespace OpenCoroutine

open Transition

namespace SelectorImpl

/-- The poller holds the interest of direction `d` for `fd`. -/
def Holds (s : SelectorImpl) (d : Direction) (fd : Fd) : Prop :=
  ∃ event, s.poller fd = some event ∧ event.holds d = true

/-- The records of `fd` are the interests that the poller holds for it. -/
def MirroredAt (s : SelectorImpl) (fd : Fd) : Prop :=
  ∀ d, s.tables.records d fd = true ↔ s.Holds d fd

def Mirrored (s : SelectorImpl) : Prop := ∀ d fd, s.tables.records d fd = true ↔ s.Holds d fd

theorem Mirrored.at {s : SelectorImpl} (h : s.Mirrored) (fd : Fd) : s.MirroredAt fd :=
  fun d => h d fd

theorem new_mirrored : Mirrored new := by
  intro d fd
  constructor
  · intro hr
    cases hr
  · rintro ⟨event, hp, -⟩
    cases hp

theorem MirroredAt.congr {s t : SelectorImpl} {fd : Fd} (h : s.MirroredAt fd)
    (hpoller : t.poller fd = s.poller fd)
    (hrecords : ∀ d, t.tables.records d fd = s.tables.records d fd) : t.MirroredAt fd := by
  intro d
  rw [hrecords d, h d, Holds, Holds, hpoller]

theorem holds_holding (s : SelectorImpl) (fd : Fd) (token : Nat) (interests : Event)
    (d : Direction) : (s.holding fd token interests).Holds d fd ↔ interests.holds d = true := by
  have hp : (s.holding fd token interests).poller fd = some interests := Function.update_self _ _ _
  constructor
  · rintro ⟨event, he, hd⟩
    rw [hp, Option.some.injEq] at he
    rwa [he]
  · exact fun hd => ⟨interests, hp, hd⟩

/-- An add that goes through to the poller puts the records of the descriptor right. -/
theorem mirroredAt_insert (d : Direction) (s : SelectorImpl) (fd : Fd) (token : Nat) :
    MirroredAt { s.holding fd token (s.interests d fd token) with
      tables := (s.holding fd token (s.interests d fd token)).tables.insert d fd token } fd := by
  intro d'
  have hholds := s.holds_holding fd token (s.interests d fd token) d'
  have hrecords : ((s.holding fd token (s.interests d fd token)).tables.insert d fd token).records
      d' fd = if d' = d then true else s.tables.records d' fd := by
    simp [holding, registered, Tables.insert]
  rw [hrecords]
  refine Iff.trans ?_ hholds.symm
  rcases d.eq_or_eq_other d' with rfl | rfl
  · rw [if_pos rfl, interests]
    split <;> simp
  · rw [if_neg d.other_ne, interests]
    split
    · simpa using ‹_›
    · rename_i ho
      simp [ho, d.other_ne]

theorem MirroredAt.addEvent {s : SelectorImpl} {fd' : Fd} (h : s.MirroredAt fd') (d : Direction)
    (fault : Fault) (fd : Fd) (token : Nat) : (addEvent d s fault fd token).2.MirroredAt fd' := by
  rcases s.addEvent_eq d fault fd token with ⟨-, hr⟩ | ⟨hd, hr | ⟨r, rfl, hr⟩⟩
  · rw [hr]
    exact h
  · rw [hr]
    exact h
  · rw [hr]
    by_cases he : fd' = fd
    · exact he ▸ mirroredAt_insert d s fd token
    · refine h.congr (Function.update_of_ne he _ _) fun d' => ?_
      simp [holding, registered, Tables.insert, he]

theorem MirroredAt.delEvent {s : SelectorImpl} {fd' : Fd} (h : s.MirroredAt fd') (fault : Fault)
    (fd : Fd) : (s.delEvent fault fd).2.MirroredAt fd' := by
  rcases s.delEvent_eq fault fd with ⟨-, hr⟩ | hr | ⟨tokenFd, hr⟩
  · rw [hr]
    exact h
  · rw [hr]
    exact h
  · rw [hr]
    by_cases he : fd' = fd
    · intro d
      simp [he, Tables.removeRecords, Holds]
    · refine h.congr (Function.update_of_ne he _ _) fun d => ?_
      simp [Tables.removeRecords, Tables.removeTokens, he]

theorem MirroredAt.delInterest {s : SelectorImpl} {fd' : Fd} (h : s.MirroredAt fd') (d : Direction)
    (fault : Fault) (fd : Fd) : (delInterest d s fault fd).2.MirroredAt fd' := by
  rcases s.delInterest_eq d fault fd with
    ⟨-, hr⟩ | ⟨-, -, hr⟩ | ⟨-, ho, hr | ⟨token, outcome, r, -, -, rfl, hr⟩⟩
  · rw [hr]
    exact h
  · rw [hr]
    exact h.delEvent fault fd
  · rw [hr]
    exact h
  · rw [hr]
    by_cases he : fd' = fd
    · intro d'
      have hholds := s.holds_holding fd token (.only d.other token) d'
      have hrecords : ((s.holding fd token (.only d.other token)).tables.remove d fd).records d' fd =
          if d' = d then false else s.tables.records d' fd := by
        simp [holding, registered, Tables.remove]
      rw [he, hrecords]
      refine Iff.trans ?_ hholds.symm
      rw [Event.holds_only]
      rcases d.eq_or_eq_other d' with rfl | rfl
      · simp [d'.other_ne.symm]
      · simp [d.other_ne, ho]
    · refine h.congr (Function.update_of_ne he _ _) fun d' => ?_
      simp [holding, registered, Tables.remove, he]

theorem MirroredAt.select {s : SelectorImpl} {fd : Fd} (h : s.MirroredAt fd) (events : List Event) :
    (s.select events).MirroredAt fd := by
  have hr : (s.select events).tables.records = s.tables.records :=
    Watch.records_select events s.tables
  exact h.congr rfl fun d => by rw [hr]

theorem Mirrored.isSome {s : SelectorImpl} (h : s.Mirrored) {d : Direction} {fd : Fd}
    (hd : s.tables.records d fd = true) : (s.poller fd).isSome = true := by
  obtain ⟨event, hp, -⟩ := (h d fd).1 hd
  rw [hp]
  rfl

theorem addEvent_not_panicked (d : Direction) (s : SelectorImpl) (fault : Fault) (fd : Fd)
    (token : Nat) : (addEvent d s fault fd token).1 ≠ .panicked := by
  rcases s.addEvent_eq d fault fd token with ⟨-, hr⟩ | ⟨-, hr | ⟨r, -, hr⟩⟩ <;> rw [hr] <;> nofun

theorem delEvent_not_panicked (s : SelectorImpl) (fault : Fault) (fd : Fd) :
    (s.delEvent fault fd).1 ≠ .panicked := by
  rcases s.delEvent_eq fault fd with ⟨-, hr⟩ | hr | ⟨tokenFd, hr⟩ <;> rw [hr] <;> nofun

/-- A delete panics after the poller has dropped the interest, if its token was gone. -/
theorem Mirrored.delInterest_panicked {s : SelectorImpl} (h : s.Mirrored) (d : Direction)
    (fault : Fault) (fd : Fd) :
    (SelectorImpl.delInterest d s fault fd).1 = .panicked ↔
      s.tables.records d fd = true ∧ s.tables.records d.other fd = true ∧ fault.modify = false ∧
        s.tables.tokenRecords d fd = none := by
  by_cases hd : s.tables.records d fd = true
  · by_cases ho : s.tables.records d.other fd = true
    · have hp := h.isSome hd
      obtain ⟨event, he⟩ := Option.isSome_iff_exists.1 hp
      cases hm : fault.modify with
      | true => simp [SelectorImpl.delInterest, hd, ho, reregister, Poller.modify, hm]
      | false =>
        cases ht : s.tables.tokenRecords d fd <;>
          simp [SelectorImpl.delInterest, hd, ho, reregister, Poller.modify, hm, he, registered, ht]
    · have hne := s.delEvent_not_panicked fault fd
      simp [SelectorImpl.delInterest, hd, ho, hne]
  · simp [SelectorImpl.delInterest, hd]

end SelectorImpl

namespace Watch

theorem step_addEvent {s t : Watch} {d : Direction} {fault : Fault} {fd : Fd} {token : Nat}
    (hs : s.step (.addEvent d fault fd token) = some t) :
    t.selector = (s.selector.addEvent d fault fd token).2 := by
  simp only [step] at hs
  split at hs
  all_goals
    rename_i he
    rw [he]
    exact Option.some.inj hs ▸ rfl

theorem step_delInterest {s t : Watch} {d : Direction} {fault : Fault} {fd : Fd}
    (hs : s.step (.delInterest d fault fd) = some t) :
    t.selector = (s.selector.delInterest d fault fd).2 := by
  simp only [step] at hs
  split at hs
  all_goals
    rename_i he
    rw [he]
    exact Option.some.inj hs ▸ rfl

theorem step_delEvent {s t : Watch} {fault : Fault} {fd : Fd}
    (hs : s.step (.delEvent fault fd) = some t) :
    t.selector = (s.selector.delEvent fault fd).2 := by
  simp only [step] at hs
  split at hs
  all_goals
    rename_i he
    rw [he]
    exact Option.some.inj hs ▸ rfl

theorem step_select {s t : Watch} {ready : List (Fd × Bool × Bool)}
    (hs : s.step (.select ready) = some t) : ∃ events, t.selector = s.selector.select events := by
  simp only [step, Option.map_eq_some_iff] at hs
  obtain ⟨events, -, rfl⟩ := hs
  exact ⟨events, rfl⟩

theorem mirroredAt_step {s t : Watch} {fd : Fd} (h : s.selector.MirroredAt fd) {a : WatchOp}
    (hs : s.step a = some t) : t.selector.MirroredAt fd := by
  cases a with
  | addEvent d fault fd' token =>
    rw [step_addEvent hs]
    exact h.addEvent d fault fd' token
  | delInterest d fault fd' =>
    rw [step_delInterest hs]
    exact h.delInterest d fault fd'
  | delEvent fault fd' =>
    rw [step_delEvent hs]
    exact h.delEvent fault fd'
  | select ready =>
    obtain ⟨events, he⟩ := step_select hs
    rw [he]
    exact h.select events

theorem mirrored_step {s t : Watch} (h : s.selector.Mirrored) {a : WatchOp}
    (hs : s.step a = some t) : t.selector.Mirrored := fun d fd =>
  mirroredAt_step (h.at fd) hs d

theorem mirrored {s : Watch} (h : Reaches step Free new s) : s.selector.Mirrored :=
  h.invariant (p := fun s => s.selector.Mirrored) SelectorImpl.new_mirrored
    fun _ _ _ hi _ hs => mirrored_step hi hs

/-- A descriptor is recorded in exactly the directions that the poller holds for it. -/
theorem records_mirror_poller {s : Watch} (h : Reaches step Free new s) (d : Direction) (fd : Fd) :
    s.selector.tables.records d fd = true ↔
      ∃ event, s.selector.poller fd = some event ∧ event.holds d = true :=
  mirrored h d fd

/-- The second add fails in the poller, and so does the delete of the first one. -/
theorem records_mirror_poller_failed :
    ∃ s : Watch, s.selector.tables.records .writable 7 = false ∧
      ∃ event, s.selector.poller 7 = some event ∧ event.holds .readable = true := by
  obtain ⟨s, h, hw, hr⟩ : ∃ s : Watch, Reaches step Free new s ∧
      s.selector.tables.records .writable 7 = false ∧
        s.selector.tables.records .readable 7 = true :=
    ⟨_, Reaches.of_run [.addEvent .readable .none 7 11,
      .addEvent .writable ⟨false, true, false⟩ 7 22, .delEvent ⟨false, false, true⟩ 7] rfl
      (guarded_free _), rfl, rfl⟩
  exact ⟨s, hw, (records_mirror_poller h .readable 7).1 hr⟩

/-- How an operation on the selector ends. -/
def outcome (s : Watch) : WatchOp → Outcome
  | .addEvent d fault fd token => (s.selector.addEvent d fault fd token).1
  | .delInterest d fault fd => (s.selector.delInterest d fault fd).1
  | .delEvent fault fd => (s.selector.delEvent fault fd).1
  | .select _ => .ok

/-- A delete of one of two recorded interests finds the token of its own direction, if it
gets past the poller. -/
def FindsToken (s : Watch) : WatchOp → Prop
  | .delInterest d fault fd =>
    s.selector.tables.records d fd = true → s.selector.tables.records d.other fd = true →
      fault.modify = false → (s.selector.tables.tokenRecords d fd).isSome = true
  | .addEvent .. | .delEvent .. | .select _ => True

/-- The assertions of the deletes hold exactly where they find the token. -/
theorem delete_ok_iff {s : Watch} (h : Reaches step Free new s) (a : WatchOp) :
    s.outcome a ≠ .panicked ↔ s.FindsToken a := by
  cases a with
  | addEvent d fault fd token =>
    exact iff_of_true (s.selector.addEvent_not_panicked d fault fd token) trivial
  | delEvent fault fd => exact iff_of_true (s.selector.delEvent_not_panicked fault fd) trivial
  | select ready => exact iff_of_true nofun trivial
  | delInterest d fault fd =>
    have hp := (mirrored h).delInterest_panicked d fault fd
    rw [outcome, Ne, hp, FindsToken]
    constructor
    · intro hnot hd ho hm
      rw [Option.isSome_iff_ne_none]
      exact fun ht => hnot ⟨hd, ho, hm, ht⟩
    · rintro hfinds ⟨hd, ho, hm, ht⟩
      have hsome := hfinds hd ho hm
      rw [ht] at hsome
      cases hsome

theorem delete_ok_both :
    ∃ s : Watch, s.selector.tables.records .readable 7 = true ∧
      s.selector.tables.records .writable 7 = true ∧
        s.outcome (.delInterest .readable .none 7) ≠ .panicked := by
  obtain ⟨s, h, hr, hw, ht⟩ : ∃ s : Watch, Reaches step Free new s ∧
      s.selector.tables.records .readable 7 = true ∧
        s.selector.tables.records .writable 7 = true ∧
          s.selector.tables.tokenRecords .readable 7 = some 11 :=
    ⟨_, Reaches.of_run [.addEvent .readable .none 7 11, .addEvent .writable .none 7 11] rfl
      (guarded_free _), rfl, rfl, rfl⟩
  refine ⟨s, hr, hw, (delete_ok_iff h _).2 fun _ _ _ => ?_⟩
  rw [ht]
  rfl

/-- A readable event takes the token away, and the read interest is deleted after it. -/
theorem delete_panics :
    ∃ s : Watch, Reaches step Free new s ∧
      s.outcome (.delInterest .readable .none 7) = .panicked :=
  ⟨_, Reaches.of_run [.addEvent .readable .none 7 11, .addEvent .writable .none 7 11,
    .select [(7, true, false)]] rfl (guarded_free _), rfl⟩

end Watch

end OpenCoroutine
