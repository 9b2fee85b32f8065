import Mathlib.Algebra.Group.Nat.Defs
import Mathlib.Tactic.Conv
import OpenCoroutine.OrderedMap

/-! The timer crate: deques of elements under timestamps. `u64` timestamps are naturals,
`getTimeoutTime` saturates as the source does. `TimerList` is a `BTreeMap`; its contents
are read off as one list of timed elements, in the order in which draining the list
from the front hands them out. -/

namespace OpenCoroutine

def u64Max : Nat := 2 ^ 64 - 1

def getTimeoutTime (dur now : Nat) : Nat := if dur ≤ u64Max then min (dur + now) u64Max else u64Max

structure TimerEntry (T : Type*) where
  timestamp : Nat
  inner : List T
  deriving DecidableEq, Repr

namespace TimerEntry

variable {T : Type*}

def new (timestamp : Nat) : TimerEntry T := ⟨timestamp, []⟩

def pushBack (e : TimerEntry T) (t : T) : TimerEntry T := { e with inner := e.inner ++ [t] }

def popFront (e : TimerEntry T) : Option (T × TimerEntry T) :=
  e.inner.head?.map fun t => (t, { e with inner := e.inner.tail })

/-- What `binary_search_by` may answer for `t`, found or not. It answers anything on a deque
that is not sorted. -/
def Searches [LinearOrder T] (e : TimerEntry T) (t : T) (index : Nat) : Prop :=
  index ≤ e.inner.length ∧ (e.inner.Pairwise (· ≤ ·) → e.inner[index]? = some t ∨
    t ∉ e.inner ∧ (∀ x ∈ e.inner.take index, x < t) ∧ ∀ x ∈ e.inner.drop index, t < x)

instance [LinearOrder T] (e : TimerEntry T) (t : T) (index : Nat) :
    Decidable (e.Searches t index) := inferInstanceAs (Decidable (_ ∧ (_ → _)))

/-- `remove`, where the search has answered `index`. -/
def remove (e : TimerEntry T) (index : Nat) : TimerEntry T :=
  { e with inner := e.inner.eraseIdx index }

/-- What `remove` returns. -/
def removed (e : TimerEntry T) (index : Nat) : Option T := e.inner[index]?

theorem searches_mem [LinearOrder T] {e : TimerEntry T} {t : T} {index : Nat}
    (h : e.Searches t index) (hsorted : e.inner.Pairwise (· ≤ ·)) (ht : t ∈ e.inner) :
    e.inner[index]? = some t :=
  (h.2 hsorted).resolve_right fun hno => hno.1 ht

end TimerEntry

abbrev TimerList (T : Type*) := OrderedMap Nat (TimerEntry T)

namespace TimerList

variable {T : Type*}

def entryLen (l : TimerList T) : Nat := l.length

/-- The retry loop of the source is dead code: the key was absent just before. -/
def insert (l : TimerList T) (timestamp : Nat) (t : T) : TimerList T :=
  match l.get? timestamp with
  | some entry => OrderedMap.insert l timestamp (entry.pushBack t)
  | none => OrderedMap.insert l timestamp ((TimerEntry.new timestamp).pushBack t)

def front (l : TimerList T) : Option (Nat × TimerEntry T) := l.first?

def popFront (l : TimerList T) : Option ((Nat × TimerEntry T) × TimerList T) := l.popFirst

def isEmpty (l : TimerList T) : Bool := l.entries.all fun e => e.2.inner.isEmpty

def getEntry (l : TimerList T) (timestamp : Nat) : Option (TimerEntry T) := l.get? timestamp

def remove (l : TimerList T) (timestamp : Nat) : Option (TimerEntry T) × TimerList T :=
  (l.get? timestamp, OrderedMap.erase l timestamp)

/-- The entry at `timestamp` becomes `entry`, and goes if that has become empty. -/
def setEntry (l : TimerList T) (timestamp : Nat) (entry : TimerEntry T) : TimerList T :=
  if entry.inner.isEmpty then OrderedMap.erase l timestamp
  else OrderedMap.insert l timestamp entry

def timed (e : Nat × TimerEntry T) : List (Nat × T) := e.2.inner.map fun t => (e.1, t)

def elems (l : TimerList T) : List (Nat × T) := l.entries.flatMap timed

theorem timed_fst {e : Nat × TimerEntry T} {x : Nat × T} (h : x ∈ timed e) : x.1 = e.1 := by
  obtain ⟨t, -, rfl⟩ := List.mem_map.1 h
  rfl

/-- The list is drained in the order of the timestamps. -/
theorem elems_sorted (l : TimerList T) : l.elems.Pairwise fun a b => a.1 ≤ b.1 := by
  rw [elems, List.pairwise_flatMap]
  constructor
  · intro e he
    refine List.pairwise_of_forall_mem_list fun a ha b hb => ?_
    rw [timed_fst ha, timed_fst hb]
  · refine l.sorted.imp fun hlt a ha b hb => ?_
    rw [timed_fst ha, timed_fst hb]
    exact hlt.le

/-- A new element comes after all those that are not later. -/
theorem elems_insert (l : TimerList T) (timestamp : Nat) (t : T) :
    ∃ pre post, l.elems = pre ++ post ∧ (insert l timestamp t).elems = pre ++ (timestamp, t) :: post ∧
      (∀ e ∈ pre, e.1 ≤ timestamp) ∧ ∀ e ∈ post, timestamp < e.1 := by
  have hbelow : ∀ x ∈ (OrderedMap.below timestamp l.entries).flatMap timed, x.1 ≤ timestamp := by
    intro x hx
    obtain ⟨e, he, hx⟩ := List.mem_flatMap.1 hx
    have hlt := (List.mem_filter.1 he).2
    simp only [decide_eq_true_eq] at hlt
    rw [timed_fst hx]
    exact hlt.le
  have habove : ∀ x ∈ (OrderedMap.above timestamp l.entries).flatMap timed, timestamp < x.1 := by
    intro x hx
    obtain ⟨e, he, hx⟩ := List.mem_flatMap.1 hx
    have hlt := (List.mem_filter.1 he).2
    simp only [decide_eq_true_eq] at hlt
    rw [timed_fst hx]
    exact hlt
  cases h : l.get? timestamp with
  | some entry =>
    refine ⟨(OrderedMap.below timestamp l.entries).flatMap timed ++ timed (timestamp, entry),
      (OrderedMap.above timestamp l.entries).flatMap timed, ?_, ?_, fun x hx => ?_, habove⟩
    · conv_lhs => rw [elems, OrderedMap.entries_of_get? h]
      simp
    · simp [insert, h, elems, timed, TimerEntry.pushBack]
    · rcases List.mem_append.1 hx with hx | hx
      · exact hbelow x hx
      · rw [timed_fst hx]
  | none =>
    refine ⟨(OrderedMap.below timestamp l.entries).flatMap timed,
      (OrderedMap.above timestamp l.entries).flatMap timed, ?_, ?_, hbelow, habove⟩
    · conv_lhs => rw [elems, OrderedMap.entries_of_get?_none h]
      simp
    · simp [insert, h, elems, timed, TimerEntry.pushBack, TimerEntry.new]

theorem elems_insert_perm (l : TimerList T) (timestamp : Nat) (t : T) :
    (insert l timestamp t).elems.Perm ((timestamp, t) :: l.elems) := by
  obtain ⟨pre, post, hl, hi, -, -⟩ := elems_insert l timestamp t
  rw [hi, hl]
  exact List.perm_middle

/-- Among those of one timestamp a new element is the last. -/
theorem filter_elems_insert (l : TimerList T) (timestamp : Nat) (t : T) (time : Nat) :
    (insert l timestamp t).elems.filter (fun e => e.1 = time) =
      (l.elems ++ [(timestamp, t)]).filter fun e => e.1 = time := by
  obtain ⟨pre, post, hl, hi, -, hpost⟩ := elems_insert l timestamp t
  rw [hi, hl]
  simp only [List.filter_append, List.filter_cons, List.filter_nil]
  by_cases ht : timestamp = time
  · have hnone : post.filter (fun e => e.1 = time) = [] := by
      refine List.filter_eq_nil_iff.2 fun e he heq => ?_
      have hlt := hpost e he
      simp only [decide_eq_true_eq] at heq
      omega
    simp [ht, hnone]
  · simp [ht]

theorem mem_elems_insert {l : TimerList T} {timestamp : Nat} {t : T} {e : Nat × T} :
    e ∈ (insert l timestamp t).elems ↔ e = (timestamp, t) ∨ e ∈ l.elems := by
  rw [(elems_insert_perm l timestamp t).mem_iff, List.mem_cons]

theorem elems_popFront {l l' : TimerList T} {timestamp : Nat} {entry : TimerEntry T}
    (h : l.popFront = some ((timestamp, entry), l')) :
    l.elems = entry.inner.map (fun t => (timestamp, t)) ++ l'.elems := by
  simp only [elems, (OrderedMap.popFirst_eq_some h).1, List.flatMap_cons, timed]

theorem lt_of_popFront {l l' : TimerList T} {timestamp : Nat} {entry : TimerEntry T}
    (h : l.popFront = some ((timestamp, entry), l')) : ∀ e ∈ l'.elems, timestamp < e.1 := by
  intro x hx
  obtain ⟨e, he, hx⟩ := List.mem_flatMap.1 hx
  rw [timed_fst hx]
  exact (OrderedMap.popFirst_eq_some h).2 e he

theorem isEmpty_of_elems {l : TimerList T} (h : l.elems = []) : l.isEmpty = true := by
  rw [isEmpty, List.all_eq_true]
  intro e he
  have hnil : timed e = [] := List.flatMap_eq_nil_iff.1 h e he
  rw [timed, List.map_eq_nil_iff] at hnil
  rw [hnil]
  rfl

theorem elems_getEntry {l : TimerList T} {timestamp : Nat} {entry : TimerEntry T}
    (h : l.getEntry timestamp = some entry) :
    l.elems = (OrderedMap.below timestamp l.entries).flatMap timed ++
      (entry.inner.map (fun t => (timestamp, t)) ++
        (OrderedMap.above timestamp l.entries).flatMap timed) := by
  conv_lhs => rw [elems, OrderedMap.entries_of_get? h]
  simp [timed]

theorem mem_getEntry {l : TimerList T} {timestamp : Nat} {t : T} (h : (timestamp, t) ∈ l.elems) :
    ∃ entry, l.getEntry timestamp = some entry ∧ t ∈ entry.inner := by
  cases hg : l.getEntry timestamp with
  | some entry =>
    refine ⟨entry, rfl, ?_⟩
    have hm := h
    rw [elems_getEntry hg] at hm
    simp only [List.mem_append, List.mem_flatMap, timed, List.mem_map, Prod.mk.injEq] at hm
    rcases hm with ⟨e, he, t', _, htime, _⟩ | ⟨t', ht', -, rfl⟩ | ⟨e, he, t', _, htime, _⟩
    · have hlt := (List.mem_filter.1 he).2
      simp only [decide_eq_true_eq] at hlt
      omega
    · exact ht'
    · have hlt := (List.mem_filter.1 he).2
      simp only [decide_eq_true_eq] at hlt
      omega
  | none =>
    rw [elems, OrderedMap.entries_of_get?_none hg] at h
    simp only [List.flatMap_append, List.mem_append, List.mem_flatMap, timed, List.mem_map,
      Prod.mk.injEq] at h
    rcases h with ⟨e, he, t', _, htime, _⟩ | ⟨e, he, t', _, htime, _⟩
    · have hlt := (List.mem_filter.1 he).2
      simp only [decide_eq_true_eq] at hlt
      omega
    · have hlt := (List.mem_filter.1 he).2
      simp only [decide_eq_true_eq] at hlt
      omega

theorem elems_setEntry (l : TimerList T) (timestamp : Nat) (entry : TimerEntry T) :
    (l.setEntry timestamp entry).elems = (OrderedMap.below timestamp l.entries).flatMap timed ++
      (entry.inner.map (fun t => (timestamp, t)) ++
        (OrderedMap.above timestamp l.entries).flatMap timed) := by
  unfold setEntry
  split
  · rename_i hnil
    have he : entry.inner = [] := List.isEmpty_iff.1 hnil
    rw [elems, OrderedMap.entries_erase, he]
    simp
  · rw [elems, OrderedMap.entries_insert]
    simp [timed]

/-- Taking the element at `index` out of its entry takes it out of the list. -/
theorem elems_remove_perm {l : TimerList T} {timestamp index : Nat} {entry : TimerEntry T} {t : T}
    (h : l.getEntry timestamp = some entry) (ht : entry.inner[index]? = some t) :
    l.elems.Perm ((timestamp, t) :: (l.setEntry timestamp (entry.remove index)).elems) := by
  have hperm : entry.inner.Perm (t :: entry.inner.eraseIdx index) := by
    obtain ⟨hlt, rfl⟩ := List.getElem?_eq_some_iff.1 ht
    have hsplit := List.take_append_drop index entry.inner
    rw [List.drop_eq_getElem_cons hlt] at hsplit
    rw [List.eraseIdx_eq_take_drop_succ]
    conv_lhs => rw [← hsplit]
    exact List.perm_middle
  have hmap := hperm.map fun t => (timestamp, t)
  rw [elems_getEntry h, elems_setEntry]
  refine ((hmap.append_right _).append_left _).trans ?_
  rw [List.map_cons, List.cons_append]
  exact List.perm_middle

end TimerList

end OpenCoroutine
