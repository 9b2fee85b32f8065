import OpenCoroutine.Interests

/-! Descriptor numbers that the program closes and opens again under one selector. The
hook table has no `close`, so the kernel drops a closed descriptor from the poller and the
tables keep what they record for its number. Every call of the poller on a number that is
not open fails.

`left` remembers the directions in which a number was recorded when it was closed, until it
is registered with the poller again. -/

namespace OpenCoroutine

open Transition

structure Descriptors where
  watch : Watch := .new
  opened : Fd → Bool := fun _ => false
  left : Direction → Fd → Bool := fun _ _ => false

inductive DescriptorOp where
  | selector (op : WatchOp)
  | openFd (fd : Fd)
  | closeFd (fd : Fd)

def Fault.badDescriptor : Fault := ⟨true, true, true⟩

namespace Descriptors

def poller (s : Descriptors) (fd : Fd) : Option Event := s.watch.selector.poller fd

def records (s : Descriptors) (d : Direction) (fd : Fd) : Bool :=
  s.watch.selector.tables.records d fd

def fault (s : Descriptors) (fault : Fault) (fd : Fd) : Fault :=
  if s.opened fd then fault else .badDescriptor

/-- The operation as the poller answers it. -/
def faulted (s : Descriptors) : WatchOp → WatchOp
  | .addEvent d fault fd token => .addEvent d (s.fault fault fd) fd token
  | .delInterest d fault fd => .delInterest d (s.fault fault fd) fd
  | .delEvent fault fd => .delEvent (s.fault fault fd) fd
  | .select ready => .select ready

/-- `Poller::add` or `Poller::modify` has gone through for `fd`. -/
def registers (s : Descriptors) (fd : Fd) : WatchOp → Bool
  | .addEvent d fault fd' token =>
    fd' = fd && !s.records d fd && s.watch.outcome (s.faulted (.addEvent d fault fd' token)) == .ok
  | .delInterest _ _ _ | .delEvent _ _ | .select _ => false

def step (s : Descriptors) : DescriptorOp → Option Descriptors
  | .selector op =>
    (s.watch.step (s.faulted op)).map fun watch =>
      { s with watch, left := fun d fd => s.left d fd && !s.registers fd op }
  | .openFd fd =>
    if s.opened fd then none else some { s with opened := Function.update s.opened fd true }
  | .closeFd fd =>
    if s.opened fd then
      some { s with
        watch := { s.watch with
          selector := { s.watch.selector with
            poller := Function.update s.watch.selector.poller fd none } }
        opened := Function.update s.opened fd false
        left d fd' := if fd' = fd then s.records d fd else s.left d fd' }
    else none

/-- An add that returns `Ok` leaves the poller with the interest it is for. -/
def Serves (s : Descriptors) : DescriptorOp → Prop
  | .selector (.addEvent d fault fd token) =>
    ∀ selector, s.watch.selector.addEvent d (s.fault fault fd) fd token = (.ok, selector) →
      selector.Holds d fd
  | _ => True

/-- An add is not for an interest that an earlier descriptor of the number has left in the
records. -/
def Fresh (s : Descriptors) : DescriptorOp → Prop
  | .selector (.addEvent d _ fd _) => s.left d fd = false
  | _ => True

end Descriptors

namespace SelectorImpl

theorem addEvent_badDescriptor (d : Direction) (s : SelectorImpl) (fd : Fd) (token : Nat) :
    (addEvent d s .badDescriptor fd token).2 = s ∧
      ((addEvent d s .badDescriptor fd token).1 = .ok → s.tables.records d fd = true) := by
  by_cases hd : s.tables.records d fd = true
  · simp [addEvent, hd]
  · by_cases ho : s.tables.records d.other fd = true
    · simp [addEvent, hd, ho, reregisterOrRegister, reregister, register, Poller.modify, Poller.add,
        Fault.badDescriptor]
    · simp [addEvent, hd, ho, register, Poller.add, Fault.badDescriptor]

/-- Deletes find nothing to change where the poller does not know the descriptor. -/
theorem delEvent_unregistered {s : SelectorImpl} {fd : Fd} (h : s.poller fd = none)
    (fault : Fault) :
    (s.delEvent fault fd).2.poller = s.poller ∧
      (s.delEvent fault fd).2.tables.records = s.tables.records := by
  unfold delEvent
  split
  · simp [deregister, Poller.delete, h, Tables.removeTokens]
  · exact ⟨rfl, rfl⟩

theorem delInterest_unregistered {s : SelectorImpl} {fd : Fd} (h : s.poller fd = none)
    (d : Direction) (fault : Fault) :
    (delInterest d s fault fd).2.poller = s.poller ∧
      (delInterest d s fault fd).2.tables.records = s.tables.records := by
  unfold delInterest
  split
  · split
    · simp [reregister, Poller.modify, h]
    · exact delEvent_unregistered h fault
  · exact ⟨rfl, rfl⟩

theorem addEvent_frame (d : Direction) (s : SelectorImpl) (fault : Fault) {fd fd' : Fd}
    (token : Nat) (hne : fd ≠ fd') :
    (addEvent d s fault fd' token).2.poller fd = s.poller fd ∧
      ∀ d', (addEvent d s fault fd' token).2.tables.records d' fd = s.tables.records d' fd := by
  rcases s.addEvent_eq d fault fd' token with ⟨-, hr⟩ | ⟨-, hr | ⟨r, rfl, hr⟩⟩ <;> rw [hr]
  · exact ⟨rfl, fun _ => rfl⟩
  · exact ⟨rfl, fun _ => rfl⟩
  · exact ⟨Function.update_of_ne hne _ _, fun d' => by simp [holding, registered, Tables.insert, hne]⟩

theorem delEvent_frame (s : SelectorImpl) (fault : Fault) {fd fd' : Fd} (hne : fd ≠ fd') :
    (s.delEvent fault fd').2.poller fd = s.poller fd ∧
      ∀ d, (s.delEvent fault fd').2.tables.records d fd = s.tables.records d fd := by
  rcases s.delEvent_eq fault fd' with ⟨-, hr⟩ | hr | ⟨tokenFd, hr⟩ <;> rw [hr]
  · exact ⟨rfl, fun _ => rfl⟩
  · exact ⟨rfl, fun _ => rfl⟩
  · refine ⟨Function.update_of_ne hne _ _, fun d => ?_⟩
    simp [Tables.removeRecords, Tables.removeTokens, hne]

theorem delInterest_frame (d : Direction) (s : SelectorImpl) (fault : Fault) {fd fd' : Fd}
    (hne : fd ≠ fd') :
    (delInterest d s fault fd').2.poller fd = s.poller fd ∧
      ∀ d', (delInterest d s fault fd').2.tables.records d' fd = s.tables.records d' fd := by
  rcases s.delInterest_eq d fault fd' with
    ⟨-, hr⟩ | ⟨-, -, hr⟩ | ⟨-, -, hr | ⟨token, outcome, r, -, -, rfl, hr⟩⟩ <;> rw [hr]
  · exact ⟨rfl, fun _ => rfl⟩
  · exact s.delEvent_frame fault hne
  · exact ⟨rfl, fun _ => rfl⟩
  · refine ⟨Function.update_of_ne hne _ _, fun d' => ?_⟩
    simp [holding, registered, Tables.remove, hne]

end SelectorImpl

namespace WatchOp

def target : WatchOp → Option Fd
  | addEvent _ _ fd _ | delInterest _ _ fd | delEvent _ fd => some fd
  | select _ => none

end WatchOp

namespace Watch

theorem step_frame {s t : Watch} {a : WatchOp} (hs : s.step a = some t) {fd : Fd}
    (hne : a.target ≠ some fd) :
    t.selector.poller fd = s.selector.poller fd ∧
      ∀ d, t.selector.tables.records d fd = s.selector.tables.records d fd := by
  cases a with
  | addEvent d fault fd' token =>
    rw [step_addEvent hs]
    exact s.selector.addEvent_frame d fault token fun he => hne (congrArg some he.symm)
  | delInterest d fault fd' =>
    rw [step_delInterest hs]
    exact s.selector.delInterest_frame d fault fun he => hne (congrArg some he.symm)
  | delEvent fault fd' =>
    rw [step_delEvent hs]
    exact s.selector.delEvent_frame fault fun he => hne (congrArg some he.symm)
  | select ready =>
    obtain ⟨events, he⟩ := step_select hs
    rw [he]
    exact ⟨rfl, fun d => by rw [SelectorImpl.select, records_select]⟩

/-- A step on a number that the poller does not know changes nothing for it, unless it is
an add. -/
theorem step_unregistered {s t : Watch} {a : WatchOp} (hs : s.step a = some t) {fd : Fd}
    (h : s.selector.poller fd = none)
    (hadd : ∀ d fault token, a ≠ .addEvent d fault fd token) :
    t.selector.poller fd = none ∧
      ∀ d, t.selector.tables.records d fd = s.selector.tables.records d fd := by
  by_cases ht : a.target = some fd
  · cases a with
    | addEvent d fault fd' token =>
      rw [WatchOp.target, Option.some.injEq] at ht
      exact absurd (by rw [ht]) (hadd d fault token)
    | delInterest d fault fd' =>
      rw [WatchOp.target, Option.some.injEq] at ht
      obtain ⟨hp, hr⟩ := SelectorImpl.delInterest_unregistered (ht ▸ h) d fault
      rw [step_delInterest hs, hp, hr]
      exact ⟨h, fun _ => rfl⟩
    | delEvent fault fd' =>
      rw [WatchOp.target, Option.some.injEq] at ht
      obtain ⟨hp, hr⟩ := SelectorImpl.delEvent_unregistered (ht ▸ h) fault
      rw [step_delEvent hs, hp, hr]
      exact ⟨h, fun _ => rfl⟩
    | select ready => cases ht
  · obtain ⟨hp, hr⟩ := step_frame hs ht
    exact ⟨hp.trans h, hr⟩

end Watch

namespace Descriptors

/-- A number is known to the poller as it is recorded, or it has been dropped with what is
recorded for it. -/
structure Kept (s : Descriptors) (fd : Fd) : Prop where
  closed : s.opened fd = false → s.poller fd = none
  split : (∀ d, s.left d fd = false) ∧ s.watch.selector.MirroredAt fd ∨
    s.poller fd = none ∧ ∀ d, s.left d fd = s.records d fd

theorem Kept.new (fd : Fd) : Kept {} fd where
  closed _ := rfl
  split := .inl ⟨fun _ => rfl, SelectorImpl.new_mirrored.at fd⟩

theorem registers_eq_false {s : Descriptors} {fd : Fd} {op : WatchOp}
    (hadd : ∀ d fault token, op ≠ .addEvent d fault fd token) : s.registers fd op = false := by
  cases op with
  | addEvent d fault fd' token =>
    have hne : fd' ≠ fd := fun he => hadd d fault token (by rw [he])
    simp [registers, hne]
  | delInterest _ _ _ | delEvent _ _ | select _ => rfl

/-- An add on `fd` changes nothing for it, or it registers the number and puts its records
right. -/
theorem add_cases (s : Descriptors) (d : Direction) (fault : Fault) (fd : Fd) (token : Nat) :
    (s.watch.selector.addEvent d (s.fault fault fd) fd token).2 = s.watch.selector ∧
        s.registers fd (.addEvent d fault fd token) = false ∨
      s.opened fd = true ∧
        (s.watch.selector.addEvent d (s.fault fault fd) fd token).2.MirroredAt fd ∧
        s.registers fd (.addEvent d fault fd token) = true := by
  rcases s.watch.selector.addEvent_eq d (s.fault fault fd) fd token with
    ⟨hd, hr⟩ | ⟨hd, hr | ⟨r, rfl, hr⟩⟩
  · have hrec : s.records d fd = true := hd
    exact .inl ⟨by rw [hr], by simp [registers, hrec]⟩
  · exact .inl ⟨by rw [hr], by simp [registers, faulted, Watch.outcome, hr]⟩
  · have hrec : s.records d fd = false := hd
    refine .inr ⟨?_, ?_, by simp [registers, faulted, Watch.outcome, hr, hrec]⟩
    · by_contra hopen
      have hbad := (SelectorImpl.addEvent_badDescriptor d s.watch.selector fd token).2
      rw [Descriptors.fault, if_neg hopen] at hr
      rw [hr] at hbad
      rw [hbad rfl] at hd
      cases hd
    · rw [hr]
      exact SelectorImpl.mirroredAt_insert d s.watch.selector fd token

theorem Kept.selector {s : Descriptors} {fd : Fd} (h : s.Kept fd) {op : WatchOp} {watch : Watch}
    (hs : s.watch.step (s.faulted op) = some watch) :
    Kept { s with watch, left := fun d fd => s.left d fd && !s.registers fd op } fd := by
  by_cases hop : ∃ d fault token, op = .addEvent d fault fd token
  · obtain ⟨d, fault, token, rfl⟩ := hop
    have hsel : watch.selector = (s.watch.selector.addEvent d (s.fault fault fd) fd token).2 :=
      Watch.step_addEvent hs
    rcases s.add_cases d fault fd token with ⟨hsame, hreg⟩ | ⟨hopen, hmirror, hreg⟩
    · rw [hsame] at hsel
      refine ⟨fun hclosed => ?_, ?_⟩
      · rw [poller, hsel]
        exact h.closed hclosed
      · simp only [poller, records, hsel, hreg, Bool.not_false, Bool.and_true]
        exact h.split
    · refine ⟨fun hclosed => ?_, .inl ⟨fun d' => ?_, ?_⟩⟩
      · rw [show s.opened fd = false from hclosed] at hopen
        cases hopen
      · simp only [hreg, Bool.not_true, Bool.and_false]
      · rw [hsel]
        exact hmirror
  · have hadd : ∀ d fault token, s.faulted op ≠ .addEvent d fault fd token := by
      intro d fault token he
      cases op with
      | addEvent d' fault' fd' token' =>
        rw [faulted, WatchOp.addEvent.injEq] at he
        exact hop ⟨d', fault', token', by rw [he.2.2.1]⟩
      | delInterest _ _ _ | delEvent _ _ | select _ => cases he
    have hreg : s.registers fd op = false :=
      registers_eq_false fun d fault token he => hop ⟨d, fault, token, he⟩
    have hunreg : s.poller fd = none → watch.selector.poller fd = none ∧
        ∀ d, watch.selector.tables.records d fd = s.records d fd :=
      fun hp => Watch.step_unregistered hs hp hadd
    refine ⟨fun hclosed => (hunreg (h.closed hclosed)).1, ?_⟩
    simp only [hreg, Bool.not_false, Bool.and_true]
    rcases h.split with ⟨hleft, hmirror⟩ | ⟨hp, hleft⟩
    · exact .inl ⟨hleft, Watch.mirroredAt_step hmirror hs⟩
    · obtain ⟨hp', hr⟩ := hunreg hp
      exact .inr ⟨hp', fun d => (hleft d).trans (hr d).symm⟩

theorem Kept.step {s t : Descriptors} (h : ∀ fd, s.Kept fd) {a : DescriptorOp}
    (hs : s.step a = some t) (fd : Fd) : t.Kept fd := by
  have hfd := h fd
  cases a with
  | selector op =>
    simp only [Descriptors.step, Option.map_eq_some_iff] at hs
    obtain ⟨watch, hw, rfl⟩ := hs
    exact hfd.selector hw
  | openFd fd' =>
    simp only [Descriptors.step, Option.ite_none_left_eq_some, Option.some.injEq] at hs
    obtain ⟨-, rfl⟩ := hs
    refine ⟨fun hclosed => hfd.closed ?_, hfd.split⟩
    by_cases he : fd = fd'
    · simp [he] at hclosed
    · simpa [Function.update_of_ne he] using hclosed
  | closeFd fd' =>
    simp only [Descriptors.step, Option.ite_none_right_eq_some, Option.some.injEq] at hs
    obtain ⟨-, rfl⟩ := hs
    by_cases he : fd = fd'
    · subst he
      exact ⟨fun _ => Function.update_self _ _ _, .inr ⟨Function.update_self _ _ _, fun d => if_pos rfl⟩⟩
    · have hp' : Function.update s.watch.selector.poller fd' none fd = s.poller fd :=
        Function.update_of_ne he _ _
      refine ⟨fun hclosed => hp'.trans (hfd.closed ?_), ?_⟩
      · simpa [Function.update_of_ne he] using hclosed
      · rcases hfd.split with ⟨hleft, hmirror⟩ | ⟨hp, hleft⟩
        · refine .inl ⟨fun d => by simpa [he] using hleft d, hmirror.congr hp' fun d => rfl⟩
        · exact .inr ⟨hp'.trans hp, fun d => (if_neg he).trans (hleft d)⟩

/-- An add serves its caller if and only if it is fresh. -/
theorem Kept.serves_iff {s : Descriptors} (h : ∀ fd, s.Kept fd) (a : DescriptorOp) :
    s.Serves a ↔ s.Fresh a := by
  cases a with
  | openFd fd | closeFd fd => exact Iff.rfl
  | selector op =>
    cases op with
    | delInterest _ _ _ | delEvent _ _ | select _ => exact Iff.rfl
    | addEvent d fault fd token =>
      have hsplit := (h fd).split
      rcases s.watch.selector.addEvent_eq d (s.fault fault fd) fd token with
        ⟨hd, hr⟩ | ⟨hd, hr⟩
      · constructor
        · intro hserves
          obtain ⟨event, hp, -⟩ := hserves _ hr
          rcases hsplit with ⟨hleft, -⟩ | ⟨hnone, -⟩
          · exact hleft d
          · rw [show s.watch.selector.poller fd = none from hnone] at hp
            cases hp
        · intro hfresh selector hadd
          rw [hr, Prod.mk.injEq] at hadd
          rw [← hadd.2]
          rcases hsplit with ⟨-, hmirror⟩ | ⟨-, hleft⟩
          · exact (hmirror d).1 hd
          · have hfalse : s.records d fd = false := (hleft d).symm.trans hfresh
            rw [show s.records d fd = true from hd] at hfalse
            cases hfalse
      · refine iff_of_true (fun selector hadd => ?_) ?_
        · rcases hr with hr | ⟨r, rfl, hr⟩
          · rw [hr] at hadd
            cases hadd
          · rw [hr, Prod.mk.injEq] at hadd
            have hmirror := SelectorImpl.mirroredAt_insert d s.watch.selector fd token d
            rw [← hadd.2]
            refine hmirror.1 ?_
            simp [Tables.insert]
        · rcases hsplit with ⟨hleft, -⟩ | ⟨-, hleft⟩
          · exact hleft d
          · exact (hleft d).trans hd

/-- The adds of a run that return `Ok` all leave the poller with their interest if and
only if none of them is for a direction in which an earlier descriptor of the number is
still recorded. -/
theorem adds_serve_iff (ops : List DescriptorOp) :
    Guarded step Serves {} ops ↔ Guarded step Fresh {} ops :=
  guarded_iff (fun s => ∀ fd, s.Kept fd) (fun _ _ _ hi _ hs => Kept.step hi hs)
    (fun _ a hi => Kept.serves_iff hi a) Kept.new ops

/-- A read interest is added, and its descriptor is closed and opened again. -/
theorem add_serves_nobody :
    ¬ Guarded step Serves {} [.openFd 7, .selector (.addEvent .readable .none 7 11),
      .closeFd 7, .openFd 7, .selector (.addEvent .readable .none 7 22)] := by
  intro h
  have hlast := (((h.2 _ rfl).2 _ rfl).2 _ rfl).2 _ rfl
  obtain ⟨event, hp, -⟩ := hlast.1 _ rfl
  cases hp

end Descriptors

end OpenCoroutine
