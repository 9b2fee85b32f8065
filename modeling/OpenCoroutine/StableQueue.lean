import OpenCoroutine.Size
import OpenCoroutine.StableSort

/-! `TimerList` as a queue. The list is compared with the plain list of what has been inserted
and not yet removed, in the order of insertion: each operation keeps the elements of every
timestamp the same on both sides, and so draining the list gives the stable sort of the plain
list. -/

namespace OpenCoroutine

open StableSort

namespace TimerEntry

variable {T : Type*}

def getTimestamp (e : TimerEntry T) : Nat := e.timestamp

/-- `pop_front` until nothing is left. -/
def drain (e : TimerEntry T) : List T :=
  match _ : e.popFront with
  | some (t, e') => t :: e'.drain
  | none => []
termination_by e.inner.length
decreasing_by
  rename_i h
  obtain ⟨timestamp, inner⟩ := e
  cases inner with
  | nil => cases h
  | cons a inner =>
    cases h
    exact Nat.lt_succ_self _

theorem drain_eq (e : TimerEntry T) : e.drain = e.inner := by
  fun_induction drain e with
  | case1 e t e' h ih =>
    obtain ⟨timestamp, inner⟩ := e
    cases inner with
    | nil => cases h
    | cons a inner =>
      cases h
      rw [ih]
      rfl
  | case2 e h =>
    obtain ⟨timestamp, inner⟩ := e
    cases inner with
    | nil => rfl
    | cons a inner => cases h

end TimerEntry

namespace TimerList

variable {T : Type*}

/-- `get_entry`, and in the entry `pop_front`, with `index` 0, or `remove`. -/
def removeAt (l : TimerList T) (timestamp index : Nat) : Option T × TimerList T :=
  match l.getEntry timestamp with
  | some entry => (entry.removed index, OrderedMap.insert l timestamp (entry.remove index))
  | none => (none, l)

/-- `pop_front`, and what it pops drained, until nothing is left. -/
def drain (l : TimerList T) : List (Nat × T) :=
  match _ : l.popFront with
  | some ((timestamp, entry), l') => entry.drain.map (fun t => (timestamp, t)) ++ drain l'
  | none => []
termination_by l.entryLen
decreasing_by
  rename_i h
  have hentries := (OrderedMap.popFirst_eq_some h).1
  simp only [entryLen, OrderedMap.length, hentries, List.length_cons]
  exact Nat.lt_succ_self _

theorem drain_eq (l : TimerList T) : l.drain = l.elems := by
  fun_induction drain l with
  | case1 l timestamp entry l' h ih => rw [elems_popFront h, entry.drain_eq, ih]
  | case2 l h =>
    obtain ⟨entries, hsorted⟩ := l
    cases entries with
    | nil => rfl
    | cons e entries => cases h

theorem filter_timed {entries : List (Nat × TimerEntry T)} {time : Nat}
    (h : ∀ e ∈ entries, e.1 ≠ time) :
    (entries.flatMap timed).filter (fun e => e.1 = time) = [] := by
  refine List.filter_eq_nil_iff.2 fun x hx heq => ?_
  obtain ⟨e, he, hx⟩ := List.mem_flatMap.1 hx
  exact h e he ((timed_fst hx).symm.trans (of_decide_eq_true heq))

/-- The elements of one timestamp are those of its entry. -/
theorem filter_elems (l : TimerList T) (time : Nat) :
    l.elems.filter (fun e => e.1 = time) =
      (l.getEntry time).toList.flatMap fun entry => timed (time, entry) := by
  have hbelow : ((OrderedMap.below time l.entries).flatMap timed).filter
      (fun e => e.1 = time) = [] :=
    filter_timed fun e he => (of_decide_eq_true (List.mem_filter.1 he).2).ne
  have habove : ((OrderedMap.above time l.entries).flatMap timed).filter
      (fun e => e.1 = time) = [] :=
    filter_timed fun e he => (of_decide_eq_true (List.mem_filter.1 he).2).ne'
  cases h : l.getEntry time with
  | none =>
    rw [elems, OrderedMap.entries_of_get?_none h, List.flatMap_append, List.filter_append, hbelow,
      habove]
    rfl
  | some entry =>
    have hself : (timed (time, entry)).filter (fun e => e.1 = time) = timed (time, entry) :=
      List.filter_eq_self.2 fun x hx => decide_eq_true (timed_fst hx)
    rw [elems, OrderedMap.entries_of_get? h, List.flatMap_append, List.flatMap_cons,
      List.filter_append, List.filter_append, hbelow, habove, hself]
    simp

theorem getEntry_removeAt (l : TimerList T) (timestamp index time : Nat) :
    (l.removeAt timestamp index).2.getEntry time =
      if time = timestamp then (l.getEntry timestamp).map fun entry => entry.remove index
      else l.getEntry time := by
  unfold removeAt
  split
  · rename_i entry hentry
    rw [getEntry, OrderedMap.get?_insert, hentry]
    rfl
  · rename_i hnone
    split
    · rename_i htime
      rw [htime, hnone]
      rfl
    · rfl

theorem removeAt_fst (l : TimerList T) (timestamp index : Nat) :
    (l.removeAt timestamp index).1 =
      (l.getEntry timestamp).bind fun entry => entry.removed index := by
  unfold removeAt
  split
  · rename_i entry hentry
    rw [hentry]
    rfl
  · rename_i hnone
    rw [hnone]
    rfl

inductive Op (T : Type*) where
  | insert (timestamp : Nat) (t : T)
  | popFront
  | removeAt (timestamp index : Nat)
  | remove (timestamp : Nat)

/-- A list with what was inserted, what of it is waiting and what the operations returned. -/
structure History (T : Type*) where
  list : TimerList T := OrderedMap.empty
  inserted : List (Nat × T) := []
  waiting : List (Nat × T) := []
  removed : List (Nat × T) := []

namespace History

def step (q : History T) : Op T → History T
  | .insert timestamp t =>
    { q with
      list := q.list.insert timestamp t
      inserted := q.inserted ++ [(timestamp, t)]
      waiting := q.waiting ++ [(timestamp, t)] }
  | .popFront =>
    match q.list.popFront with
    | some ((timestamp, entry), list) =>
      { q with
        list
        waiting := q.waiting.filter fun e => e.1 ≠ timestamp
        removed := q.removed ++ timed (timestamp, entry) }
    | none => q
  | .removeAt timestamp index =>
    let (t, list) := q.list.removeAt timestamp index
    { q with
      list
      waiting := eraseNth (fun e => e.1 = timestamp) index q.waiting
      removed := q.removed ++ t.toList.map fun t => (timestamp, t) }
  | .remove timestamp =>
    let (entry, list) := q.list.remove timestamp
    { q with
      list
      waiting := q.waiting.filter fun e => e.1 ≠ timestamp
      removed := q.removed ++ entry.toList.flatMap fun entry => timed (timestamp, entry) }

def run (ops : List (Op T)) : History T := ops.foldl step {}

structure Sound (q : History T) : Prop where
  stamped : ∀ time entry, q.list.getEntry time = some entry → entry.timestamp = time
  waits : ∀ time, q.list.elems.filter (fun e => e.1 = time) =
    q.waiting.filter fun e => e.1 = time
  sublist : q.waiting.Sublist q.inserted
  perm : q.inserted.Perm (q.waiting ++ q.removed)

theorem perm_hand_out {inserted waiting removed out rest : List (Nat × T)}
    (h : inserted.Perm (waiting ++ removed)) (hout : waiting.Perm (out ++ rest)) :
    inserted.Perm (rest ++ (removed ++ out)) := by
  refine (h.trans (hout.append_right removed)).trans ?_
  rw [List.append_assoc, ← List.append_assoc rest]
  exact List.perm_append_comm

theorem Sound.waits_entry {q : History T} (h : q.Sound) (time : Nat) :
    (q.list.getEntry time).toList.flatMap (fun entry => timed (time, entry)) =
      q.waiting.filter fun e => e.1 = time := by
  rw [← filter_elems, h.waits]

theorem Sound.insert {q : History T} (h : q.Sound) (timestamp : Nat) (t : T) :
    (q.step (.insert timestamp t)).Sound where
  stamped time entry hentry := by
    simp only [step, TimerList.insert, getEntry] at hentry
    split at hentry
    · rename_i old hold
      rw [OrderedMap.get?_insert] at hentry
      split at hentry
      · rename_i htime
        cases hentry
        exact (h.stamped timestamp old hold).trans htime.symm
      · exact h.stamped time entry hentry
    · rw [OrderedMap.get?_insert] at hentry
      split at hentry
      · rename_i htime
        cases hentry
        exact htime.symm
      · exact h.stamped time entry hentry
  waits time := by
    simp only [step]
    rw [filter_elems_insert, List.filter_append, List.filter_append, h.waits]
  sublist := h.sublist.append_right _
  perm := by
    refine (h.perm.append_right _).trans ?_
    simp only [step, List.append_assoc]
    exact List.perm_append_comm.append_left _

theorem Sound.remove {q : History T} (h : q.Sound) (timestamp : Nat) :
    (q.step (.remove timestamp)).Sound where
  stamped time entry hentry := by
    simp only [step, TimerList.remove, getEntry, OrderedMap.get?_erase] at hentry
    split at hentry
    · cases hentry
    · exact h.stamped time entry hentry
  waits time := by
    simp only [step, TimerList.remove]
    rw [filter_elems, getEntry, OrderedMap.get?_erase]
    split
    · rename_i htime
      simp [List.filter_filter, htime]
    · rename_i htime
      rw [← getEntry, h.waits_entry, List.filter_filter]
      refine List.filter_congr fun e _ => ?_
      by_cases he : e.1 = time <;> simp [he, htime]
  sublist := List.filter_sublist.trans h.sublist
  perm := by
    refine perm_hand_out h.perm ?_
    have hout := h.waits_entry timestamp
    simp only [step, TimerList.remove]
    rw [← getEntry, hout]
    refine (List.filter_append_perm (fun e => decide (e.1 = timestamp)) q.waiting).symm.trans ?_
    simp

theorem step_popFront {q : History T} {timestamp : Nat} {entry : TimerEntry T} {list : TimerList T}
    (h : q.list.popFront = some ((timestamp, entry), list)) :
    q.step .popFront = q.step (.remove timestamp) := by
  obtain ⟨hget, hlist⟩ := OrderedMap.popFirst_erase h
  simp only [step, h, TimerList.remove, hget, hlist]
  simp

theorem Sound.removeAt {q : History T} (h : q.Sound) (timestamp index : Nat) :
    (q.step (.removeAt timestamp index)).Sound where
  stamped time entry hentry := by
    simp only [step, getEntry_removeAt] at hentry
    split at hentry
    · rename_i htime
      obtain ⟨old, hold, rfl⟩ := Option.map_eq_some_iff.1 hentry
      exact (h.stamped timestamp old hold).trans htime.symm
    · exact h.stamped time entry hentry
  waits time := by
    simp only [step]
    rw [filter_elems, getEntry_removeAt]
    split
    · rename_i htime
      subst htime
      rw [filter_eraseNth, ← h.waits_entry]
      cases q.list.getEntry time with
      | none => rfl
      | some entry => simp [timed, TimerEntry.remove, List.eraseIdx_map]
    · rename_i htime
      rw [filter_eraseNth_of_disjoint, h.waits_entry]
      intro e he
      have hstamp := of_decide_eq_true he
      exact decide_eq_false fun heq => htime (heq.symm.trans hstamp)
  sublist := (eraseNth_sublist _ index q.waiting).trans h.sublist
  perm := by
    have hgone := eraseNth_perm (fun e => decide (e.1 = timestamp)) index q.waiting
    have hout : (q.waiting.filter fun e => e.1 = timestamp)[index]?.toList =
        (q.list.removeAt timestamp index).1.toList.map fun t => (timestamp, t) := by
      rw [← h.waits_entry, removeAt_fst]
      cases q.list.getEntry timestamp with
      | none => rfl
      | some entry => simp [timed, TimerEntry.removed, Option.toList_map]
    rw [hout] at hgone
    exact perm_hand_out h.perm hgone

theorem Sound.step {q : History T} (h : q.Sound) (op : Op T) : (q.step op).Sound := by
  cases op with
  | insert timestamp t => exact h.insert timestamp t
  | popFront =>
    cases hpop : q.list.popFront with
    | none =>
      simp only [History.step, hpop]
      exact h
    | some popped =>
      rw [step_popFront hpop]
      exact h.remove popped.1.1
  | removeAt timestamp index => exact h.removeAt timestamp index
  | remove timestamp => exact h.remove timestamp

theorem run_sound (ops : List (Op T)) : (run ops).Sound := by
  have hfrom : ∀ (ops : List (Op T)) (q : History T), q.Sound → (ops.foldl History.step q).Sound := by
    intro ops
    induction ops with
    | nil => exact fun q h => h
    | cons op ops ih => exact fun q h => ih _ (h.step op)
  refine hfrom ops {} ⟨fun time entry h => ?_, fun time => rfl, .slnil, .nil⟩
  cases h

/-- The list works as a priority queue in which equal timestamps keep the order of
insertion. -/
structure StableQueue (q : History T) : Prop where
  perm : q.inserted.Perm (q.waiting ++ q.removed)
  order : q.waiting.Sublist q.inserted
  len : q.list.len + q.removed.length = q.inserted.length
  timestamps : ∀ e ∈ q.list.entries, e.2.getTimestamp = e.1
  isEmpty : q.list.isEmpty = true ↔ q.list.len = 0
  drains : q.list.drain = q.waiting.mergeSort fun a b => a.1 ≤ b.1

theorem Sound.elems {q : History T} (h : q.Sound) :
    q.list.elems = q.waiting.mergeSort fun a b => a.1 ≤ b.1 :=
  eq_mergeSort q.list.elems_sorted h.waits

theorem Sound.len {q : History T} (h : q.Sound) : q.list.len = q.waiting.length := by
  rw [len_eq, h.elems, List.length_mergeSort]

theorem isEmpty_iff_len (l : TimerList T) : l.isEmpty = true ↔ l.len = 0 := by
  rw [len_eq, List.length_eq_zero_iff]
  exact ⟨elems_of_isEmpty, isEmpty_of_elems⟩

theorem stable_queue (ops : List (Op T)) : (run ops).StableQueue := by
  have h := run_sound ops
  refine ⟨h.perm, h.sublist, ?_, fun e he => ?_, isEmpty_iff_len _, ?_⟩
  · rw [h.len, h.perm.length_eq, List.length_append]
  · exact h.stamped e.1 e.2 (OrderedMap.get?_eq_some_iff.2 he)
  · rw [drain_eq, h.elems]

end History

end TimerList

end OpenCoroutine
