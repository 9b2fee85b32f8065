import OpenCoroutine.Selector
import OpenCoroutine.Transition

/-! The key of an interest as the waiters see it. `waiter` remembers, for each direction
of a descriptor, the token of the last successful add whose interest has not been
deleted since.

The poller keeps one key for both directions of a descriptor, an add on a recorded
descriptor returns before it registers anything, and a delete puts back the token that
`select` has left in the records. `Coherent` excludes what goes wrong through these. -/

namespace OpenCoroutine

open Transition

structure Watch where
  selector : SelectorImpl
  waiter : Direction → Fd → Option Nat

inductive WatchOp where
  | addEvent (d : Direction) (fault : Fault) (fd : Fd) (token : Nat)
  | delInterest (d : Direction) (fault : Fault) (fd : Fd)
  | delEvent (fault : Fault) (fd : Fd)
  | select (ready : List (Fd × Bool × Bool))

/-- What the records, the poller and the waiters say about one descriptor. -/
structure Slot where
  interests : Option Event
  records : Direction → Bool
  tokens : Direction → Option Nat
  waiter : Direction → Option Nat

namespace Slot

/-- The interest of direction `d` is registered under `key`. -/
def Carries (s : Slot) (d : Direction) (key : Nat) : Prop :=
  ∃ event, s.interests = some event ∧ event.holds d = true ∧ event.key = key

structure Watched (s : Slot) : Prop where
  recorded : ∀ d, s.records d = true → ∃ key, s.Carries d key
  held : ∀ event d, s.interests = some event → event.holds d = true → s.records d = true
  interested : ∀ event, s.interests = some event → ∃ d, event.holds d = true
  tokens : ∀ d token, s.tokens d = some token → s.Carries d token
  waiters : ∀ d token, s.waiter d = some token → s.Carries d token

end Slot

namespace Watch

def new : Watch := ⟨.new, fun _ _ => none⟩

def slot (s : Watch) (fd : Fd) : Slot where
  interests := s.selector.poller fd
  records d := s.selector.tables.records d fd
  tokens d := s.selector.tables.tokenRecords d fd
  waiter d := s.waiter d fd

def setWaiter (s : Watch) (d : Direction) (fd : Fd) (token : Option Nat) :
    Direction → Fd → Option Nat :=
  fun d' fd' => if d' = d ∧ fd' = fd then token else s.waiter d' fd'

def step (s : Watch) : WatchOp → Option Watch
  | .addEvent d fault fd token =>
    match s.selector.addEvent d fault fd token with
    | (.ok, selector) => some ⟨selector, s.setWaiter d fd (some token)⟩
    | (_, selector) => some { s with selector }
  | .delInterest d fault fd =>
    match s.selector.delInterest d fault fd with
    | (.err, selector) => some { s with selector }
    | (_, selector) => some ⟨selector, s.setWaiter d fd none⟩
  | .delEvent fault fd =>
    match s.selector.delEvent fault fd with
    | (.ok, selector) =>
      some ⟨selector, fun d' fd' => if fd' = fd then none else s.waiter d' fd'⟩
    | (_, selector) => some { s with selector }
  | .select ready =>
    (ready.mapM fun r => s.selector.poller.report r.1 r.2.1 r.2.2).map fun events =>
      { s with selector := s.selector.select events }

def Coherent (s : Watch) : WatchOp → Prop
  | .addEvent _ _ fd token => ∀ event, s.selector.poller fd = some event → event.key = token
  | .delInterest d _ fd =>
    s.selector.tables.records d fd = true → s.selector.tables.records d.other fd = true →
      (s.selector.tables.tokenRecords d.other fd).isSome = true
  | .delEvent _ _ | .select _ => True

end Watch

namespace SelectorImpl

def holding (s : SelectorImpl) (fd : Fd) (token : Nat) (interests : Event) : SelectorImpl :=
  s.registered (Function.update s.poller fd (some interests)) fd token

theorem register_eq (s : SelectorImpl) (fault : Fault) (fd : Fd) (token : Nat)
    (interests : Event) :
    s.register fault fd token interests = (false, s) ∨
      s.register fault fd token interests = (true, s.holding fd token interests) := by
  by_cases h : (fault.add || (s.poller fd).isSome) = true
  · exact .inl (by simp [register, Poller.add, h])
  · exact .inr (by simp [register, Poller.add, h, holding])

theorem reregister_eq (s : SelectorImpl) (fault : Fault) (fd : Fd) (token : Nat)
    (interests : Event) :
    s.reregister fault fd token interests = (false, s) ∨
      s.reregister fault fd token interests = (true, s.holding fd token interests) := by
  by_cases h : (fault.modify || (s.poller fd).isNone) = true
  · exact .inl (by simp [reregister, Poller.modify, h])
  · exact .inr (by simp [reregister, Poller.modify, h, holding])

theorem register_holding (s : SelectorImpl) (fault : Fault) (fd : Fd) (token : Nat)
    (interests : Event) :
    (s.holding fd token interests).register fault fd token interests =
      (false, s.holding fd token interests) := by
  simp [register, Poller.add, holding, registered]

theorem reregisterOrRegister_eq (s : SelectorImpl) (fault : Fault) (fd : Fd) (token : Nat)
    (interests : Event) :
    s.reregisterOrRegister fault fd token interests = (false, s) ∨
      s.reregisterOrRegister fault fd token interests =
        (true, s.holding fd token interests) := by
  rcases s.reregister_eq fault fd token interests with h | h
  · rcases s.register_eq fault fd token interests with h' | h'
    · exact .inl (by simp only [reregisterOrRegister, h, h', Bool.or_false])
    · exact .inr (by simp only [reregisterOrRegister, h, h', Bool.or_true])
  · exact .inr (by simp only [reregisterOrRegister, h, register_holding, Bool.or_false])

def interests (s : SelectorImpl) (d : Direction) (fd : Fd) (token : Nat) : Event :=
  if s.tables.records d.other fd then .all token else .only d token

theorem addEvent_eq (d : Direction) (s : SelectorImpl) (fault : Fault) (fd : Fd) (token : Nat) :
    s.tables.records d fd = true ∧ addEvent d s fault fd token = (.ok, s) ∨
      s.tables.records d fd = false ∧
        (addEvent d s fault fd token = (.err, s) ∨
          ∃ r : SelectorImpl, r = s.holding fd token (s.interests d fd token) ∧
            addEvent d s fault fd token =
              (.ok, { r with tables := r.tables.insert d fd token })) := by
  by_cases hd : s.tables.records d fd = true
  · exact .inl ⟨hd, by simp [addEvent, hd]⟩
  · refine .inr ⟨by simpa using hd, ?_⟩
    by_cases ho : s.tables.records d.other fd = true
    · rcases s.reregisterOrRegister_eq fault fd token (.all token) with h | h
      · exact .inl (by simp [addEvent, hd, ho, h])
      · exact .inr ⟨_, rfl, by simp [addEvent, hd, ho, h, interests]⟩
    · rcases s.register_eq fault fd token (.only d token) with h | h
      · exact .inl (by simp [addEvent, hd, ho, h])
      · exact .inr ⟨_, rfl, by simp [addEvent, hd, ho, h, interests]⟩

theorem delEvent_eq (s : SelectorImpl) (fault : Fault) (fd : Fd) :
    (∀ d, s.tables.records d fd = false) ∧ s.delEvent fault fd = (.ok, s) ∨
      s.delEvent fault fd = (.err, { s with tables := s.tables.removeTokens fd }) ∨
      ∃ tokenFd, s.delEvent fault fd =
        (.ok, ⟨Function.update s.poller fd none,
          { (s.tables.removeTokens fd).removeRecords fd with tokenFd }⟩) := by
  by_cases hr : (s.tables.records .readable fd || s.tables.records .writable fd) = true
  · refine .inr ?_
    by_cases h : (fault.delete || (s.poller fd).isNone) = true
    · exact .inl (by simp [delEvent, hr, deregister, Poller.delete, h])
    · refine .inr ⟨(s.delEvent fault fd).2.tables.tokenFd, ?_⟩
      simp [delEvent, hr, deregister, Poller.delete, h, Tables.removeRecords, Tables.removeTokens]
  · refine .inl ⟨fun d => ?_, by simp [delEvent, hr]⟩
    rw [Bool.or_eq_true, not_or] at hr
    cases d with
    | readable => simpa using hr.1
    | writable => simpa using hr.2

theorem delInterest_eq (d : Direction) (s : SelectorImpl) (fault : Fault) (fd : Fd) :
    s.tables.records d fd = false ∧ delInterest d s fault fd = (.ok, s) ∨
      s.tables.records d fd = true ∧ s.tables.records d.other fd = false ∧
        delInterest d s fault fd = s.delEvent fault fd ∨
      s.tables.records d fd = true ∧ s.tables.records d.other fd = true ∧
        (delInterest d s fault fd = (.err, s) ∨
          ∃ token outcome, ∃ r : SelectorImpl,
            token = (s.tables.tokenRecords d.other fd).getD 0 ∧ outcome ≠ .err ∧
            r = s.holding fd token (.only d.other token) ∧
            delInterest d s fault fd =
              (outcome, { r with tables := r.tables.remove d fd })) := by
  by_cases hd : s.tables.records d fd = true
  · refine .inr ?_
    by_cases ho : s.tables.records d.other fd = true
    · refine .inr ⟨hd, ho, ?_⟩
      rcases s.reregister_eq fault fd ((s.tables.tokenRecords d.other fd).getD 0)
        (.only d.other ((s.tables.tokenRecords d.other fd).getD 0)) with h | h
      · exact .inl (by simp [delInterest, hd, ho, h])
      · refine .inr ⟨_, _, _, rfl, ?_, rfl, by
          simp only [delInterest, hd, ho, h, if_true]
          rfl⟩
        split <;> simp
    · exact .inl ⟨hd, by simpa using ho, by simp [delInterest, hd, ho]⟩
  · exact .inl ⟨by simpa using hd, by simp [delInterest, hd]⟩

end SelectorImpl

theorem Direction.eq_or_eq_other (d d' : Direction) : d' = d ∨ d' = d.other := by
  cases d <;> cases d' <;> simp [Direction.other]

theorem Direction.other_ne (d : Direction) : d.other ≠ d := by
  cases d <;> simp [Direction.other]

@[simp] theorem Event.holds_all (key : Nat) (d : Direction) : (Event.all key).holds d = true := by
  cases d <;> rfl

@[simp] theorem Event.holds_only (key : Nat) (d d' : Direction) :
    (Event.only d key).holds d' = true ↔ d' = d := by
  cases d <;> cases d' <;> simp [Event.only, Event.holds]

@[simp] theorem Event.key_only (key : Nat) (d : Direction) : (Event.only d key).key = key := by
  cases d <;> rfl

namespace Slot

variable {s : Slot} {d : Direction} {token : Nat}

theorem Watched.key_eq (h : s.Watched) {event : Event} (hs : s.interests = some event) {d : Direction}
    {key : Nat} (hk : s.tokens d = some key ∨ s.waiter d = some key) : event.key = key := by
  obtain ⟨event', hs', -, hkey⟩ := hk.elim (h.tokens d key) (h.waiters d key)
  rw [hs, Option.some.injEq] at hs'
  rwa [hs']

theorem Watched.add (h : s.Watched)
    (htoken : ∀ event, s.interests = some event → event.key = token)
    {t : Slot} (hi : t.interests = some (if s.records d.other then .all token else .only d token))
    (hr : ∀ d', t.records d' = if d' = d then true else s.records d')
    (ht : ∀ d', t.tokens d' = if d' = d then some token else s.tokens d')
    (hw : ∀ d', t.waiter d' = if d' = d then some token else s.waiter d') : t.Watched := by
  have hkeep : ∀ d', d' = d ∨ s.records d' = true → t.Carries d' token := by
    intro d' hd'
    refine ⟨_, hi, ?_, ?_⟩
    · rcases d.eq_or_eq_other d' with rfl | rfl
      · split <;> simp
      · rcases hd' with he | ho
        · exact absurd he d.other_ne
        · simp [ho]
    · split <;> simp [Event.all]
  have hold : ∀ d' key, s.Carries d' key → t.Carries d' key := by
    rintro d' key ⟨event, hs, hd', rfl⟩
    rw [htoken event hs]
    exact hkeep d' (.inr (h.held event d' hs hd'))
  refine ⟨fun d' hd' => ?_, fun event d' he hd' => ?_, fun event he => ?_, fun d' key hk => ?_,
    fun d' key hk => ?_⟩
  · rw [hr] at hd'
    by_cases he : d' = d
    · exact ⟨token, hkeep d' (.inl he)⟩
    · rw [if_neg he] at hd'
      exact ⟨token, hkeep d' (.inr hd')⟩
  · rw [hr]
    rw [hi, Option.some.injEq] at he
    subst he
    rcases d.eq_or_eq_other d' with rfl | rfl
    · simp
    · by_cases ho : s.records d.other = true
      · simp [ho]
      · simp [ho, d.other_ne] at hd'
  · rw [hi, Option.some.injEq] at he
    subst he
    exact ⟨d, by split <;> simp⟩
  · rw [ht] at hk
    by_cases he : d' = d
    · rw [if_pos he, Option.some.injEq] at hk
      exact hk ▸ hkeep d' (.inl he)
    · rw [if_neg he] at hk
      exact hold d' key (h.tokens d' key hk)
  · rw [hw] at hk
    by_cases he : d' = d
    · rw [if_pos he, Option.some.injEq] at hk
      exact hk ▸ hkeep d' (.inl he)
    · rw [if_neg he] at hk
      exact hold d' key (h.waiters d' key hk)

theorem Watched.drop (h : s.Watched) (htoken : s.tokens d.other = some token)
    (ho : s.records d.other = true)
    {t : Slot} (hi : t.interests = some (.only d.other token))
    (hr : ∀ d', t.records d' = if d' = d then false else s.records d')
    (ht : ∀ d', t.tokens d' = if d' = d then none else s.tokens d')
    (hw : ∀ d', t.waiter d' = if d' = d then none else s.waiter d') : t.Watched := by
  obtain ⟨event, hs, -, hkey⟩ := h.tokens _ _ htoken
  have hkeep : t.Carries d.other token := ⟨_, hi, by simp, by simp⟩
  refine ⟨fun d' hd' => ?_, fun event d' he hd' => ?_, fun event he => ?_, fun d' key hk => ?_,
    fun d' key hk => ?_⟩
  · rcases d.eq_or_eq_other d' with rfl | rfl
    · rw [hr, if_pos rfl] at hd'
      cases hd'
    · exact ⟨token, hkeep⟩
  · rw [hi, Option.some.injEq] at he
    subst he
    rw [Event.holds_only] at hd'
    rw [hr, hd', if_neg d.other_ne, ho]
  · rw [hi, Option.some.injEq] at he
    subst he
    exact ⟨d.other, by simp⟩
  · rw [ht] at hk
    rcases d.eq_or_eq_other d' with rfl | rfl
    · rw [if_pos rfl] at hk
      cases hk
    · rw [if_neg d.other_ne] at hk
      rw [← h.key_eq hs (.inl hk), hkey]
      exact hkeep
  · rw [hw] at hk
    rcases d.eq_or_eq_other d' with rfl | rfl
    · rw [if_pos rfl] at hk
      cases hk
    · rw [if_neg d.other_ne] at hk
      rw [← h.key_eq hs (.inr hk), hkey]
      exact hkeep

theorem Watched.forget (h : s.Watched) {t : Slot} (hi : t.interests = s.interests)
    (hr : t.records = s.records) (ht : ∀ d key, t.tokens d = some key → s.tokens d = some key)
    (hw : t.waiter = s.waiter) : t.Watched where
  recorded d hd := by
    rw [hr] at hd
    simpa only [Carries, hi] using h.recorded d hd
  held event d he hd := by
    rw [hi] at he
    rw [hr]
    exact h.held event d he hd
  interested event he := h.interested event (hi ▸ he)
  tokens d key hk := by
    simpa only [Carries, hi] using h.tokens d key (ht d key hk)
  waiters d key hk := by
    rw [hw] at hk
    simpa only [Carries, hi] using h.waiters d key hk

theorem Watched.clear {t : Slot} (hi : t.interests = none) (hr : ∀ d, t.records d = false)
    (ht : ∀ d, t.tokens d = none) (hw : ∀ d, t.waiter d = none) : t.Watched where
  recorded d hd := by simp [hr d] at hd
  held event d he := by simp [hi] at he
  interested event he := by simp [hi] at he
  tokens d key hk := by simp [ht d] at hk
  waiters d key hk := by simp [hw d] at hk

end Slot

namespace Watch

def Watched (s : Watch) : Prop := ∀ fd, (s.slot fd).Watched

theorem new_watched : Watched new := fun _ =>
  Slot.Watched.clear rfl (fun _ => rfl) (fun _ => rfl) (fun _ => rfl)

theorem Watched.of_slot {s t : Watch} (h : s.Watched) (fd : Fd)
    (hother : ∀ fd', fd' ≠ fd → t.slot fd' = s.slot fd') (hfd : (t.slot fd).Watched) :
    t.Watched := by
  intro fd'
  by_cases he : fd' = fd
  · exact he ▸ hfd
  · rw [hother fd' he]
    exact h fd'

theorem Watched.addEvent {s t : Watch} (h : s.Watched) {d : Direction} {fault : Fault} {fd : Fd}
    {token : Nat} (hok : s.Coherent (.addEvent d fault fd token))
    (hs : s.step (.addEvent d fault fd token) = some t) : t.Watched := by
  rcases s.selector.addEvent_eq d fault fd token with ⟨hd, hr⟩ | ⟨-, hr | ⟨r, rfl, hr⟩⟩
  · simp only [step, hr, Option.some.injEq] at hs
    subst hs
    obtain ⟨key, event, hi, hh, -⟩ := (h fd).recorded d hd
    have hkey : event.key = token := hok event hi
    refine h.of_slot fd (fun fd' hne => by simp [slot, setWaiter, hne]) ?_
    refine ⟨(h fd).recorded, (h fd).held, (h fd).interested, (h fd).tokens, fun d' key hk => ?_⟩
    by_cases he : d' = d
    · subst he
      simp only [slot, setWaiter, and_self, if_true, Option.some.injEq] at hk
      exact ⟨event, hi, hh, hkey.trans hk⟩
    · simp only [slot, setWaiter, he, false_and, if_false] at hk
      exact (h fd).waiters d' key hk
  · simp only [step, hr, Option.some.injEq] at hs
    subst hs
    exact h
  · simp only [step, hr, Option.some.injEq] at hs
    subst hs
    refine h.of_slot fd (fun fd' hne => ?_) ((h fd).add hok (d := d) ?_ ?_ ?_ ?_)
    · simp [slot, setWaiter, SelectorImpl.holding, SelectorImpl.registered, Tables.insert, hne]
    · simp only [slot, SelectorImpl.holding, SelectorImpl.registered, Function.update_self]
      rfl
    · simp [slot, SelectorImpl.holding, SelectorImpl.registered, Tables.insert]
    · simp [slot, SelectorImpl.holding, SelectorImpl.registered, Tables.insert]
    · simp [slot, setWaiter]

theorem Watched.waiter_none {s : Watch} (h : s.Watched) {d : Direction} {fd : Fd}
    (hd : s.selector.tables.records d fd = false) : s.waiter d fd = none := by
  by_contra hne
  obtain ⟨key, hk⟩ := Option.ne_none_iff_exists'.1 hne
  obtain ⟨event, hi, hh, -⟩ := (h fd).waiters d key hk
  have hr : s.selector.tables.records d fd = true := (h fd).held event d hi hh
  rw [hd] at hr
  cases hr

theorem Watched.delEvent {s : Watch} (h : s.Watched) {fault : Fault} {fd : Fd}
    {outcome : Outcome} {selector : SelectorImpl} {waiter : Direction → Fd → Option Nat}
    (hs : s.selector.delEvent fault fd = (outcome, selector))
    (hother : ∀ fd', fd' ≠ fd → ∀ d, waiter d fd' = s.waiter d fd')
    (herr : outcome = .err → waiter = s.waiter)
    (hdone : outcome ≠ .err → ∀ d, waiter d fd = none) : Watched ⟨selector, waiter⟩ := by
  rcases s.selector.delEvent_eq fault fd with ⟨-, hr⟩ | hr | ⟨tokenFd, hr⟩
  · rw [hr, Prod.mk.injEq] at hs
    obtain ⟨rfl, rfl⟩ := hs
    refine h.of_slot fd (fun fd' hne => by simp [slot, hother fd' hne]) ?_
    refine ⟨(h fd).recorded, (h fd).held, (h fd).interested, (h fd).tokens, fun d key hk => ?_⟩
    simp [slot, hdone (by simp) d] at hk
  · rw [hr, Prod.mk.injEq] at hs
    obtain ⟨rfl, rfl⟩ := hs
    rw [herr rfl]
    refine h.of_slot fd (fun fd' hne => by simp [slot, Tables.removeTokens, hne]) ?_
    exact (h fd).forget rfl rfl (fun d key hk => by simp [slot, Tables.removeTokens] at hk) rfl
  · rw [hr, Prod.mk.injEq] at hs
    obtain ⟨rfl, rfl⟩ := hs
    refine h.of_slot fd (fun fd' hne => ?_) (Slot.Watched.clear ?_ ?_ ?_ ?_)
    · simp [slot, Tables.removeTokens, Tables.removeRecords, hne, hother fd' hne]
    · simp [slot]
    · simp [slot, Tables.removeRecords]
    · simp [slot, Tables.removeTokens, Tables.removeRecords]
    · exact hdone (by simp)

theorem Watched.delInterest {s t : Watch} (h : s.Watched) {d : Direction} {fault : Fault} {fd : Fd}
    (hok : s.Coherent (.delInterest d fault fd))
    (hs : s.step (.delInterest d fault fd) = some t) : t.Watched := by
  have hother : ∀ fd', fd' ≠ fd → ∀ d', s.setWaiter d fd none d' fd' = s.waiter d' fd' := by
    intro fd' hne d'
    simp [setWaiter, hne]
  rcases s.selector.delInterest_eq d fault fd with
    ⟨hd, hr⟩ | ⟨-, ho, hr⟩ | ⟨hd, ho, hr | ⟨token, outcome, r, htoken, hne, rfl, hr⟩⟩
  · simp only [step, hr, Option.some.injEq] at hs
    subst hs
    have hw : s.setWaiter d fd none = s.waiter := by
      funext d' fd'
      by_cases he : d' = d ∧ fd' = fd
      · obtain ⟨rfl, rfl⟩ := he
        simp [setWaiter, h.waiter_none hd]
      · simp [setWaiter, he]
    rw [hw]
    exact h
  · cases he : s.selector.delEvent fault fd with
    | mk outcome selector =>
      rw [he] at hr
      have hcleared : ∀ d', s.setWaiter d fd none d' fd = none := by
        intro d'
        rcases d.eq_or_eq_other d' with rfl | rfl
        · simp [setWaiter]
        · simp [setWaiter, h.waiter_none ho]
      by_cases herr : outcome = .err
      · subst herr
        simp only [step, hr, Option.some.injEq] at hs
        subst hs
        exact h.delEvent he (fun _ _ _ => rfl) (fun _ => rfl) (absurd rfl)
      · simp only [step, hr] at hs
        simp only [Option.some.injEq] at hs
        subst hs
        exact h.delEvent he hother (fun hb => absurd hb herr) fun _ => hcleared
  · simp only [step, hr, Option.some.injEq] at hs
    subst hs
    exact h
  · obtain ⟨key, hk⟩ := Option.isSome_iff_exists.1 (hok hd ho)
    rw [hk, Option.getD_some] at htoken
    subst htoken
    simp only [step, hr, Option.some.injEq] at hs
    subst hs
    refine h.of_slot fd (fun fd' hne => ?_) ((h fd).drop hk ho ?_ ?_ ?_ ?_)
    · simp [slot, setWaiter, SelectorImpl.holding, SelectorImpl.registered, Tables.remove, hne]
    · simp [slot, SelectorImpl.holding, SelectorImpl.registered]
    · simp [slot, SelectorImpl.holding, SelectorImpl.registered, Tables.remove]
    · simp [slot, SelectorImpl.holding, SelectorImpl.registered, Tables.remove]
    · simp [slot, setWaiter]

theorem tokenRecords_select (events : List Event) (t : Tables) {d : Direction} {fd : Fd}
    {key : Nat} (h : (events.foldl Tables.select t).tokenRecords d fd = some key) :
    t.tokenRecords d fd = some key := by
  induction events generalizing t with
  | nil => exact h
  | cons event events ih =>
    have hstep := ih (t.select event) h
    simp only [Tables.select, Option.ite_none_left_eq_some] at hstep
    exact hstep.2

theorem records_select (events : List Event) (t : Tables) :
    (events.foldl Tables.select t).records = t.records := by
  induction events generalizing t with
  | nil => rfl
  | cons event events ih => exact ih (t.select event)

theorem Watched.select {s : Watch} (h : s.Watched) (events : List Event) :
    Watched { s with selector := s.selector.select events } := fun fd =>
  (h fd).forget rfl
    (by
      funext d
      exact congrFun (congrFun (records_select events s.selector.tables) d) fd)
    (fun _ _ hk => tokenRecords_select events s.selector.tables hk) rfl

theorem Watched.step {s t : Watch} (h : s.Watched) {a : WatchOp} (hok : s.Coherent a)
    (hs : s.step a = some t) : t.Watched := by
  cases a with
  | addEvent d fault fd token => exact h.addEvent hok hs
  | delInterest d fault fd => exact h.delInterest hok hs
  | delEvent fault fd =>
    cases he : s.selector.delEvent fault fd with
    | mk outcome selector =>
      cases outcome with
      | ok =>
        simp only [Watch.step, he, Option.some.injEq] at hs
        subst hs
        exact h.delEvent he (fun fd' hne d => if_neg hne) nofun fun _ d => if_pos rfl
      | err =>
        simp only [Watch.step, he, Option.some.injEq] at hs
        subst hs
        exact h.delEvent he (fun _ _ _ => rfl) (fun _ => rfl) (absurd rfl)
      | panicked =>
        rcases s.selector.delEvent_eq fault fd with ⟨-, hr⟩ | hr | ⟨tokenFd, hr⟩ <;>
          rw [hr] at he <;> cases he
  | select ready =>
    simp only [Watch.step, Option.map_eq_some_iff] at hs
    obtain ⟨events, -, rfl⟩ := hs
    exact h.select events

/-- In a coherent run every report for a descriptor carries, in each direction, the token
of the add whose interest it serves. -/
theorem events_carry_token {s : Watch} (h : Reaches step Coherent new s) (d : Direction) (fd : Fd)
    (token : Nat) (hw : s.waiter d fd = some token) :
    ∃ event, s.selector.poller fd = some event ∧ event.holds d = true ∧
      ∀ readable writable report, s.selector.poller.report fd readable writable = some report →
        report.key = token := by
  have hs : s.Watched := h.invariant new_watched fun _ _ _ hi hok hst => hi.step hok hst
  obtain ⟨event, hi, hd, hkey⟩ := (hs fd).waiters d token hw
  refine ⟨event, hi, hd, fun readable writable report hr => ?_⟩
  have hi' : s.selector.poller fd = some event := hi
  simp only [Poller.report, hi', Option.map_some, Option.some.injEq] at hr
  rw [← hr]
  exact hkey

theorem events_carry_token_both :
    ∃ s : Watch, s.waiter .writable 7 = some 11 ∧
      ∃ event, s.selector.poller 7 = some event ∧ event.holds .writable = true ∧
        ∀ readable writable report, s.selector.poller.report 7 readable writable = some report →
          report.key = 11 := by
  have h : Reaches step Coherent new _ :=
    ((Reaches.start.next (a := .addEvent .readable .none 7 11) nofun rfl).next
      (a := .select [(7, true, false)]) trivial rfl).next
      (a := .addEvent .writable .none 7 11) (by rintro event h; cases h; rfl) rfl
  exact ⟨_, rfl, events_carry_token h .writable 7 11 rfl⟩

/-- Two coroutines wait on one descriptor, for reading under 11 and then for writing
under 22. -/
theorem events_carry_other_token :
    ∃ s : Watch, Reaches step Free new s ∧ s.waiter .readable 7 = some 11 ∧
      s.selector.poller.report 7 true false = some ⟨22, true, false⟩ :=
  ⟨_, Reaches.of_run [.addEvent .readable .none 7 11, .addEvent .writable .none 7 22] rfl
    (guarded_free _), rfl, rfl⟩

end Watch

end OpenCoroutine
