import OpenCoroutine.Readiness
import OpenCoroutine.Tokens

/-! `EventLoops::del_event`: a delete on each of the loops that `next` picks in turn, while
nobody else uses the selectors. The records and the tokens are those of all loops, so the
first loop that is visited takes the token away and the first one that holds the
descriptor takes the records away, and what comes later finds neither. -/

namespace OpenCoroutine

open Function Transition

namespace Tables

def recorded (t : Tables) (fd : Fd) : Bool := t.records .readable fd || t.records .writable fd

/-- The token under which a delete of `fd` takes its entry out of `TOKEN_FD`. -/
def lookupToken (t : Tables) (fd : Fd) : Nat :=
  ((t.tokenRecords .readable fd).or (t.tokenRecords .writable fd)).getD 0

theorem recorded_eq_false {t : Tables} {fd : Fd} :
    t.recorded fd = false ↔ ∀ d, t.records d fd = false := by
  rw [recorded, Bool.or_eq_false_iff]
  constructor
  · rintro ⟨hr, hw⟩ d
    cases d with
    | readable => exact hr
    | writable => exact hw
  · exact fun h => ⟨h .readable, h .writable⟩

end Tables

namespace SelectorImpl

theorem delEvent_unrecorded {s : SelectorImpl} {fd : Fd} (h : s.tables.recorded fd = false) :
    (s.delEvent .none fd).2 = s := by
  rw [Tables.recorded] at h
  simp [delEvent, h]

theorem delEvent_absent {s : SelectorImpl} {fd : Fd} (h : s.tables.recorded fd = true)
    (hp : s.poller fd = none) :
    (s.delEvent .none fd).2 = { s with tables := s.tables.removeTokens fd } := by
  rw [Tables.recorded] at h
  simp [delEvent, h, deregister, Poller.delete, hp]

theorem delEvent_held {s : SelectorImpl} {fd : Fd} (h : s.tables.recorded fd = true)
    (hp : s.poller fd ≠ none) :
    (s.delEvent .none fd).2 = ⟨update s.poller fd none, { (s.tables.removeTokens fd).removeRecords fd with
      tokenFd := update s.tables.tokenFd (s.tables.lookupToken fd) none }⟩ := by
  rw [Tables.recorded] at h
  obtain ⟨event, he⟩ := Option.ne_none_iff_exists'.1 hp
  simp [delEvent, h, deregister, Poller.delete, he, Fault.none, Tables.removeTokens,
    Tables.removeRecords, Tables.lookupToken]

end SelectorImpl

namespace EventLoops

variable {ι θ : Type*} {m n : Nat}

def visit (fd : Fd) (s : EventLoops ι θ m n) (j : Fin m) : EventLoops ι θ m n :=
  s.setSelector j ((s.selector j).delEvent .none fd).2

def delEventTimes (fd : Fd) : Nat → EventLoops ι θ m n → EventLoops ι θ m n
  | 0, s => s
  | count + 1, s =>
    match pick m s.index false with
    | some j => delEventTimes fd count ({ s with index := (s.index + 1) % 2 ^ 64 }.visit fd j)
    | none => s

def delEvent (s : EventLoops ι θ m n) (fd : Fd) : EventLoops ι θ m n := delEventTimes fd m s

/-- The loops that `count` calls of `next` pick one after another. -/
def visits (m : Nat) : Nat → Nat → List (Fin m)
  | 0, _ => []
  | count + 1, index => (pick m index false).toList ++ visits m count ((index + 1) % 2 ^ 64)

/-- No loop and no table knows of the descriptor. -/
structure Forgotten (s : EventLoops ι θ m n) (fd : Fd) : Prop where
  pollers : ∀ j, s.pollers j fd = none
  tokenFd : ∀ token, s.tables.tokenFd token ≠ some fd
  records : ∀ d, s.tables.records d fd = false
  tokenRecords : ∀ d, s.tables.tokenRecords d fd = none

/-- The only loop that holds the descriptor is among those visited, and the token looked up
there is the only one that leads to the descriptor. -/
def Traceable (s : EventLoops ι θ m n) (fd : Fd) (js : List (Fin m)) : Prop :=
  ∃ pre j post, js = pre ++ j :: post ∧ j ∉ pre ∧ (∀ k, s.pollers k fd ≠ none ↔ k = j) ∧
    ∀ token, s.tables.tokenFd token = some fd →
      token = if pre = [] then s.tables.lookupToken fd else 0

theorem pick_isSome (hm : 0 < m) (index : Nat) : ∃ j, pick m index false = some j := by
  have hlt : index % m < m := Nat.mod_lt _ hm
  exact ⟨⟨index % m, hlt⟩, by simp [pick, EventLoops.get, hlt]⟩

theorem delEventTimes_eq (hm : 0 < m) (fd : Fd) (count : Nat) (s : EventLoops ι θ m n) :
    ∃ index, delEventTimes fd count s =
      { (visits m count s.index).foldl (visit fd) s with index } := by
  induction count generalizing s with
  | zero => exact ⟨s.index, rfl⟩
  | succ count ih =>
    obtain ⟨j, hj⟩ := pick_isSome hm s.index
    obtain ⟨index, hi⟩ := ih ({ s with index := (s.index + 1) % 2 ^ 64 }.visit fd j)
    have hindex : ∀ (js : List (Fin m)) (s : EventLoops ι θ m n) (i i' : Nat),
        { js.foldl (visit fd) { s with index := i } with index := i' } =
          { js.foldl (visit fd) s with index := i' } := by
      intro js
      induction js with
      | nil => intro s i i'; rfl
      | cons k js ih => exact fun s i i' => ih (s.visit fd k) i i'
    refine ⟨index, ?_⟩
    rw [delEventTimes, hj]
    show delEventTimes fd count _ = _
    rw [hi, visits, hj]
    exact hindex _ (s.visit fd j) ((s.index + 1) % 2 ^ 64) index

theorem visit_unrecorded {s : EventLoops ι θ m n} {fd : Fd} (h : s.tables.recorded fd = false)
    (j : Fin m) : s.visit fd j = s := by
  have hs : ((s.selector j).delEvent .none fd).2 = s.selector j :=
    SelectorImpl.delEvent_unrecorded h
  rw [visit, hs]
  simp [setSelector, selector]

theorem foldl_unrecorded {s : EventLoops ι θ m n} {fd : Fd} (h : s.tables.recorded fd = false)
    (js : List (Fin m)) : js.foldl (visit fd) s = s := by
  induction js with
  | nil => rfl
  | cons j js ih => rw [List.foldl_cons, visit_unrecorded h, ih]

theorem visit_absent {s : EventLoops ι θ m n} {fd : Fd} (h : s.tables.recorded fd = true)
    {j : Fin m} (hp : s.pollers j fd = none) :
    s.visit fd j = { s with tables := s.tables.removeTokens fd } := by
  have hs : ((s.selector j).delEvent .none fd).2 =
      { s.selector j with tables := s.tables.removeTokens fd } :=
    SelectorImpl.delEvent_absent (s := s.selector j) h hp
  rw [visit, hs]
  simp [setSelector, selector]

theorem visit_held {s : EventLoops ι θ m n} {fd : Fd} (h : s.tables.recorded fd = true)
    {j : Fin m} (hp : s.pollers j fd ≠ none) :
    s.visit fd j = { s with
      pollers := update s.pollers j (update (s.pollers j) fd none)
      tables := { (s.tables.removeTokens fd).removeRecords fd with
        tokenFd := update s.tables.tokenFd (s.tables.lookupToken fd) none } } := by
  have hs := SelectorImpl.delEvent_held (s := s.selector j) h hp
  rw [visit, hs]
  rfl

/-- After the visit of a loop that holds the descriptor only the other loops and the other
tokens matter. -/
theorem visit_held_forgotten {s : EventLoops ι θ m n} {fd : Fd} (h : s.tables.recorded fd = true)
    {j : Fin m} (hp : s.pollers j fd ≠ none) :
    (s.visit fd j).Forgotten fd ↔ (∀ k, s.pollers k fd ≠ none ↔ k = j) ∧
      ∀ token, s.tables.tokenFd token = some fd → token = s.tables.lookupToken fd := by
  have hpollers : (s.visit fd j).pollers = update s.pollers j (update (s.pollers j) fd none) := by
    rw [visit_held h hp]
  have htokenFd : (s.visit fd j).tables.tokenFd =
      update s.tables.tokenFd (s.tables.lookupToken fd) none := by
    rw [visit_held h hp]
  constructor
  · intro hf
    refine ⟨fun k => ⟨fun hk => ?_, fun hk => hk ▸ hp⟩, fun token ht => ?_⟩
    · by_contra hne
      have hnone := hf.pollers k
      rw [hpollers, update_of_ne hne] at hnone
      exact hk hnone
    · by_contra hne
      have hnot := hf.tokenFd token
      rw [htokenFd, update_of_ne hne] at hnot
      exact hnot ht
  · rintro ⟨honly, htokens⟩
    refine ⟨fun k => ?_, fun token ht => ?_, fun d => ?_, fun d => ?_⟩
    · rw [hpollers]
      by_cases hk : k = j
      · rw [hk, update_self, update_self]
      · rw [update_of_ne hk]
        by_contra hne
        exact hk ((honly k).1 hne)
    · rw [htokenFd] at ht
      by_cases he : token = s.tables.lookupToken fd
      · rw [he, update_self] at ht
        cases ht
      · rw [update_of_ne he] at ht
        exact he (htokens token ht)
    · rw [visit_held h hp]
      simp [Tables.removeRecords]
    · rw [visit_held h hp]
      simp [Tables.removeRecords, Tables.removeTokens]

theorem foldl_forgotten {s : EventLoops ι θ m n} {fd : Fd} (h : s.tables.recorded fd = true)
    (js : List (Fin m)) : (js.foldl (visit fd) s).Forgotten fd ↔ s.Traceable fd js := by
  induction js generalizing s with
  | nil =>
    refine iff_of_false (fun hf => ?_) ?_
    · have hr := Tables.recorded_eq_false.2 hf.records
      rw [List.foldl_nil, h] at hr
      cases hr
    · rintro ⟨pre, j, post, he, -⟩
      simp at he
  | cons j js ih =>
    rw [List.foldl_cons]
    by_cases hp : s.pollers j fd = none
    · have hlookup : (s.tables.removeTokens fd).lookupToken fd = 0 := by
        simp [Tables.removeTokens, Tables.lookupToken]
      have hrest := ih (s := { s with tables := s.tables.removeTokens fd }) h
      rw [visit_absent h hp, hrest]
      constructor
      · rintro ⟨pre, k, post, rfl, hpre, honly, htokens⟩
        have hkj : k ≠ j := by
          rintro rfl
          exact (honly k).2 rfl hp
        refine ⟨j :: pre, k, post, rfl, by simp [hkj, hpre], honly, fun token ht => ?_⟩
        have hz := htokens token ht
        simp only [hlookup, ite_self] at hz
        rw [hz, if_neg (List.cons_ne_nil _ _)]
      · rintro ⟨pre, k, post, he, hpre, honly, htokens⟩
        cases pre with
        | nil =>
          obtain ⟨rfl, rfl⟩ := List.cons.inj he
          exact absurd hp ((honly j).2 rfl)
        | cons j' pre =>
          obtain ⟨rfl, rfl⟩ := List.cons.inj he
          refine ⟨pre, k, post, rfl, fun hm => hpre (List.mem_cons_of_mem _ hm), honly,
            fun token ht => ?_⟩
          have hz := htokens token ht
          rw [if_neg (List.cons_ne_nil _ _)] at hz
          simp only [hlookup, ite_self, hz]
    · have hunrec : (s.visit fd j).tables.recorded fd = false := by
        rw [visit_held h hp, Tables.recorded_eq_false]
        intro d
        simp [Tables.removeRecords]
      rw [foldl_unrecorded hunrec, visit_held_forgotten h hp]
      constructor
      · rintro ⟨honly, htokens⟩
        exact ⟨[], j, js, rfl, List.not_mem_nil, honly, fun token ht => htokens token ht⟩
      · rintro ⟨pre, k, post, he, hpre, honly, htokens⟩
        have hjk : j = k := (honly j).1 hp
        cases pre with
        | nil => exact ⟨hjk ▸ honly, fun token ht => htokens token ht⟩
        | cons j' pre =>
          obtain ⟨rfl, -⟩ := List.cons.inj he
          exact absurd (hjk ▸ List.mem_cons_self) hpre

/-- What `del_event` needs to find: a recorded descriptor that it can trace, or one that
nothing mentions to begin with. -/
def Deletable (s : EventLoops ι θ m n) (fd : Fd) : Prop :=
  (s.tables.recorded fd = true → s.Traceable fd (visits m m s.index)) ∧
    (s.tables.recorded fd = false → s.Forgotten fd)

theorem forgotten_index {s : EventLoops ι θ m n} {fd : Fd} (index : Nat) :
    { s with index }.Forgotten fd ↔ s.Forgotten fd :=
  ⟨fun h => ⟨h.pollers, h.tokenFd, h.records, h.tokenRecords⟩,
    fun h => ⟨h.pollers, h.tokenFd, h.records, h.tokenRecords⟩⟩

theorem visits_zero (count index : Nat) : visits 0 count index = [] := by
  induction count generalizing index with
  | zero => rfl
  | succ count ih => simp [visits, pick, EventLoops.get, ih]

/-- `del_event` forgets the descriptor exactly where it finds it traceable, or already
forgotten. -/
theorem delEvent_forgotten (s : EventLoops ι θ m n) (fd : Fd) :
    (s.delEvent fd).Forgotten fd ↔ s.Deletable fd := by
  have hfold : (s.delEvent fd).Forgotten fd ↔
      ((visits m m s.index).foldl (visit fd) s).Forgotten fd := by
    by_cases hm : m = 0
    · subst hm
      rw [visits_zero]
      exact Iff.rfl
    · obtain ⟨index, hi⟩ := delEventTimes_eq (Nat.pos_of_ne_zero hm) fd m s
      rw [delEvent, hi]
      exact forgotten_index index
  rw [hfold, Deletable]
  by_cases h : s.tables.recorded fd = true
  · rw [foldl_forgotten h]
    exact ⟨fun ht => ⟨fun _ => ht, fun hf => absurd h (by simp [hf])⟩, fun hd => hd.1 h⟩
  · have hf : s.tables.recorded fd = false := Bool.eq_false_iff.2 h
    rw [foldl_unrecorded hf]
    exact ⟨fun ht => ⟨fun hr => absurd hr h, fun _ => ht⟩, fun hd => hd.2 hf⟩

section Run

variable [DecidableEq ι] [DecidableEq θ] (now : Nat → Nat) (pool : Fin m → ι)

/-- `del_event` alone with the selectors is a run of the loops. -/
theorem delEventTimes_run (hm : 0 < m) (fd : Fd) (count : Nat) (s : EventLoops ι θ m n) :
    Reaches (step now pool) Free s (delEventTimes fd count s) := by
  induction count generalizing s with
  | zero => exact .start
  | succ count ih =>
    obtain ⟨j, hj⟩ := pick_isSome hm s.index
    have hnext : s.step now pool (.next false) =
        some { s with index := (s.index + 1) % 2 ^ 64, picks := j :: s.picks } := by
      simp [step, hj]
    have hdel : { s with index := (s.index + 1) % 2 ^ 64, picks := j :: s.picks }.step now pool
        (.delEvent j fd .none) = some ({ s with index := (s.index + 1) % 2 ^ 64 }.visit fd j) := by
      simp only [step, List.mem_cons_self, if_true, List.erase_cons_head]
      rfl
    rw [delEventTimes, hj]
    exact ((Reaches.single trivial hnext).next trivial hdel).trans (ih _)

theorem delEvent_run (fd : Fd) (s : EventLoops ι θ m n) :
    Reaches (step now pool) Free s (s.delEvent fd) := by
  by_cases hm : m = 0
  · subst hm
    exact .start
  · exact delEventTimes_run now pool (Nat.pos_of_ne_zero hm) fd m s

end Run

/-- Loop 1 holds the descriptor under 99, and loop 2, visited first, takes the token away. -/
theorem delEvent_leaves_token :
    ∃ s : EventLoops (Fin 3) (Fin 3) 3 3, Reaches (step id id) Free (three 1) s ∧
      s.pollers 1 7 = some ⟨99, true, false⟩ ∧ (s.delEvent 7).tables.tokenFd 99 = some 7 ∧
        ¬ (s.delEvent 7).Forgotten 7 := by
  refine ⟨_, Reaches.of_run [.next false, .addEvent 1 1 .readable 7 .none 100 99] rfl
    (guarded_free _), rfl, by decide, fun h => ?_⟩
  exact h.tokenFd 99 (by decide)

end EventLoops

end OpenCoroutine
