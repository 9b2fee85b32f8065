import Mathlib.Data.List.Basic
import OpenCoroutine.BoxHeap
import OpenCoroutine.Replay

/-! `CoroutineLocal`: a map from keys to the addresses of leaked boxes. Its methods take the map
by shared reference, so nothing keeps a reference that `get` has given out from being used after
the key was bound anew. A run keeps the references that have been given out, each with the number
of times that its key had been bound or removed by then. -/

namespace OpenCoroutine

open BoxHeap Function Transition

variable {κ τ : Type*} {V : τ → Type*}

structure CoroutineLocal (κ : Type*) {τ : Type*} (V : τ → Type*) where
  entries : κ → Option Nat := fun _ => none
  heap : Heap V := {}

namespace CoroutineLocal

variable [DecidableEq κ] [DecidableEq τ]

def put (s : CoroutineLocal κ V) (key : κ) (val : Sigma V) :
    Except Misuse (Option (Sigma V) × CoroutineLocal κ V) :=
  let (v, heap) := s.heap.leak val
  match s.entries key with
  | none => .ok (none, ⟨update s.entries key (some v), heap⟩)
  | some ptr => (heap.fromRaw ptr val.1).map fun (old, heap) =>
      (some old, ⟨update s.entries key (some v), heap⟩)

omit [DecidableEq κ] in
/-- Also `get_mut`. -/
def get (s : CoroutineLocal κ V) (key : κ) (t : τ) : Except Misuse (Option (Nat × Sigma V)) :=
  match s.entries key with
  | none => .ok none
  | some ptr => (s.heap.deref ptr t).map fun x => some (ptr, x)

def remove (s : CoroutineLocal κ V) (key : κ) (t : τ) :
    Except Misuse (Option (Sigma V) × CoroutineLocal κ V) :=
  match s.entries key with
  | none => .ok (none, s)
  | some ptr => (s.heap.fromRaw ptr t).map fun (old, heap) =>
      (some old, ⟨update s.entries key none, heap⟩)

/-- The value that is stored under a key. -/
def stored (s : CoroutineLocal κ V) (key : κ) : Option (Sigma V) :=
  (s.entries key).bind s.heap.boxes

end CoroutineLocal

structure Reference (κ τ : Type*) where
  key : κ
  ptr : Nat
  type : τ
  mutable : Bool
  rebinds : Nat

structure LocalRun (κ : Type*) {τ : Type*} (V : τ → Type*) where
  locals : CoroutineLocal κ V := {}
  refs : List (Reference κ τ) := []
  rebinds : κ → Nat := fun _ => 0

namespace LocalRun

inductive Act (κ : Type*) {τ : Type*} (V : τ → Type*) where
  | put (key : κ) (val : Sigma V)
  | get (key : κ) (t : τ)
  | getMut (key : κ) (t : τ)
  | remove (key : κ) (t : τ)
  | read (r : Nat)
  | write (r : Nat) (val : Sigma V)

variable [DecidableEq κ] [DecidableEq τ]

def rebind (s : LocalRun κ V) (key : κ) (locals : CoroutineLocal κ V) : LocalRun κ V :=
  { s with locals, rebinds := update s.rebinds key (s.rebinds key + 1) }

def lend (s : LocalRun κ V) (key : κ) (t : τ) (mutable : Bool) :
    Except Misuse (Option (Sigma V) × LocalRun κ V) :=
  (s.locals.get key t).map fun
    | none => (none, s)
    | some (ptr, x) => (some x, { s with refs := s.refs ++ [⟨key, ptr, t, mutable, s.rebinds key⟩] })

/-- What a step returns and leaves, if the program can take it. -/
def exec (s : LocalRun κ V) : Act κ V → Option (Except Misuse (Option (Sigma V) × LocalRun κ V))
  | .put key val => some ((s.locals.put key val).map fun (old, locals) => (old, s.rebind key locals))
  | .get key t => some (s.lend key t false)
  | .getMut key t => some (s.lend key t true)
  | .remove key t =>
    some ((s.locals.remove key t).map fun (old, locals) => (old, s.rebind key locals))
  | .read r => s.refs[r]?.map fun ref =>
      (s.locals.heap.deref ref.ptr ref.type).map fun x => (some x, s)
  | .write r val => s.refs[r]?.bind fun ref =>
      if ref.mutable = true ∧ val.1 = ref.type then
        some ((s.locals.heap.write ref.ptr val).map fun heap =>
          (none, { s with locals := { s.locals with heap } }))
      else none

def perform (s : LocalRun κ V) (a : Act κ V) : Option (Option (Sigma V) × LocalRun κ V) :=
  (s.exec a).bind Except.toOption

def step (s : LocalRun κ V) (a : Act κ V) : Option (LocalRun κ V) := (s.perform a).map Prod.snd

def Faultless (s : LocalRun κ V) (a : Act κ V) : Prop := ∀ fault, s.exec a ≠ some (.error fault)

omit [DecidableEq κ] [DecidableEq τ] in
/-- A key is used with the type of what it holds, and a reference while its key is bound as it
was. -/
def Proper (s : LocalRun κ V) : Act κ V → Prop
  | .put key val => ∀ x ∈ s.locals.stored key, x.1 = val.1
  | .get key t | .getMut key t | .remove key t => ∀ x ∈ s.locals.stored key, x.1 = t
  | .read r => ∀ ref ∈ s.refs[r]?, s.rebinds ref.key = ref.rebinds
  | .write r val => ∀ ref ∈ s.refs[r]?, ref.mutable = true → val.1 = ref.type →
      s.rebinds ref.key = ref.rebinds

omit [DecidableEq κ] [DecidableEq τ] in
structure Sound (s : LocalRun κ V) : Prop where
  live : ∀ key ptr, s.locals.entries key = some ptr → ∃ x, s.locals.heap.boxes ptr = some x
  apart : ∀ key key' ptr, s.locals.entries key = some ptr → s.locals.entries key' = some ptr →
    key = key'
  owned : ∀ ptr x, s.locals.heap.boxes ptr = some x → ∃ key, s.locals.entries key = some ptr
  fresh : ∀ ptr, s.locals.heap.next ≤ ptr → s.locals.heap.boxes ptr = none
  past : ∀ ref ∈ s.refs, ref.ptr < s.locals.heap.next ∧ ref.rebinds ≤ s.rebinds ref.key
  valid : ∀ ref ∈ s.refs, s.rebinds ref.key = ref.rebinds →
    s.locals.entries ref.key = some ref.ptr ∧
      ∀ x, s.locals.heap.boxes ref.ptr = some x → x.1 = ref.type
  stale : ∀ ref ∈ s.refs, s.rebinds ref.key ≠ ref.rebinds → s.locals.heap.boxes ref.ptr = none

variable {s t : LocalRun κ V}

omit [DecidableEq κ] [DecidableEq τ] in
theorem Sound.lt_next (h : s.Sound) {key : κ} {ptr : Nat}
    (he : s.locals.entries key = some ptr) : ptr < s.locals.heap.next := by
  obtain ⟨x, hx⟩ := h.live key ptr he
  by_contra hle
  rw [h.fresh ptr (Nat.le_of_not_lt hle)] at hx
  cases hx

omit [DecidableEq κ] [DecidableEq τ] in
theorem Sound.stored_eq (h : s.Sound) {key : κ} {ptr : Nat}
    (he : s.locals.entries key = some ptr) :
    ∃ x, s.locals.heap.boxes ptr = some x ∧ s.locals.stored key = some x := by
  obtain ⟨x, hx⟩ := h.live key ptr he
  refine ⟨x, hx, ?_⟩
  rw [CoroutineLocal.stored, he]
  exact hx

/-- What `put` and `remove` do to the heap: the box that was under the key is freed, and the new
one, if there is any, is at the next address. -/
structure Rebinds (s : LocalRun κ V) (key : κ) (v : Option Nat) (locals : CoroutineLocal κ V) :
    Prop where
  entries : locals.entries = update s.locals.entries key v
  next : s.locals.heap.next ≤ locals.heap.next
  placed : ∀ ptr, v = some ptr → ptr = s.locals.heap.next ∧ ptr < locals.heap.next ∧
    ∃ x, locals.heap.boxes ptr = some x
  freed : ∀ ptr, s.locals.entries key = some ptr → locals.heap.boxes ptr = none
  kept : ∀ ptr, v ≠ some ptr → s.locals.entries key ≠ some ptr →
    locals.heap.boxes ptr = s.locals.heap.boxes ptr

theorem put_ok (h : s.Sound) {key : κ} {val : Sigma V} (hok : s.Proper (.put key val)) :
    ∃ locals, s.locals.put key val = .ok (s.locals.stored key, locals) ∧
      s.Rebinds key (some s.locals.heap.next) locals ∧
        locals.heap.boxes s.locals.heap.next = some val := by
  cases he : s.locals.entries key with
  | none =>
    have hstored : s.locals.stored key = none := by rw [CoroutineLocal.stored, he]; rfl
    refine ⟨⟨update s.locals.entries key (some s.locals.heap.next), (s.locals.heap.leak val).2⟩, ?_,
      ⟨rfl, Nat.le_succ _, ?_, ?_, ?_⟩, update_self _ _ _⟩
    · rw [CoroutineLocal.put, he, hstored]
      rfl
    · rintro ptr ⟨⟩
      exact ⟨rfl, Nat.lt_succ_self _, val, update_self _ _ _⟩
    · intro ptr hptr
      rw [he] at hptr
      cases hptr
    · intro ptr hv _
      exact update_of_ne (fun hp => hv (congrArg some hp.symm)) _ _
  | some old =>
    obtain ⟨x, hx, hstored⟩ := h.stored_eq he
    have hne : old ≠ s.locals.heap.next := Nat.ne_of_lt (h.lt_next he)
    have hlive : (s.locals.heap.leak val).2.boxes old = some x := by
      rw [← hx]
      exact update_of_ne hne _ _
    have hderef := Heap.deref_of_live hlive (hok x hstored)
    have hnew : update (s.locals.heap.leak val).2.boxes old none s.locals.heap.next = some val := by
      rw [update_of_ne (Ne.symm hne)]
      exact update_self _ _ _
    have hkept : ∀ ptr, some s.locals.heap.next ≠ some ptr → some old ≠ some ptr →
        update (s.locals.heap.leak val).2.boxes old none ptr = s.locals.heap.boxes ptr := by
      intro ptr hv hptr
      rw [update_of_ne (fun hp => hptr (congrArg some hp.symm))]
      exact update_of_ne (fun hp => hv (congrArg some hp.symm)) _ _
    refine ⟨⟨update s.locals.entries key (some s.locals.heap.next), { (s.locals.heap.leak val).2 with
      boxes := update (s.locals.heap.leak val).2.boxes old none }⟩, ?_,
      ⟨rfl, Nat.le_succ _, ?_, ?_, ?_⟩, hnew⟩
    · simp only [CoroutineLocal.put, he, Heap.fromRaw, hderef, hstored]
      rfl
    · rintro ptr ⟨⟩
      exact ⟨rfl, Nat.lt_succ_self _, val, hnew⟩
    · intro ptr hptr
      rw [he, Option.some.injEq] at hptr
      subst hptr
      exact update_self _ _ _
    · intro ptr hv hptr
      rw [he] at hptr
      exact hkept ptr hv hptr

theorem remove_ok (h : s.Sound) {key : κ} {t : τ} (hok : s.Proper (.remove key t)) :
    ∃ locals, s.locals.remove key t = .ok (s.locals.stored key, locals) ∧
      s.Rebinds key none locals := by
  cases he : s.locals.entries key with
  | none =>
    have hstored : s.locals.stored key = none := by rw [CoroutineLocal.stored, he]; rfl
    refine ⟨s.locals, ?_, ?_, Nat.le_refl _, nofun, ?_, fun _ _ _ => rfl⟩
    · rw [CoroutineLocal.remove, he, hstored]
    · rw [← he, update_eq_self]
    · intro ptr hptr
      rw [he] at hptr
      cases hptr
  | some old =>
    obtain ⟨x, hx, hstored⟩ := h.stored_eq he
    have hderef := Heap.deref_of_live hx (hok x hstored)
    refine ⟨⟨update s.locals.entries key none, { s.locals.heap with
      boxes := update s.locals.heap.boxes old none }⟩, ?_, rfl, Nat.le_refl _, nofun, ?_, ?_⟩
    · simp only [CoroutineLocal.remove, he, Heap.fromRaw, hderef, hstored]
      rfl
    · intro ptr hptr
      rw [he, Option.some.injEq] at hptr
      subst hptr
      exact update_self _ _ _
    · intro ptr _ hptr
      rw [he] at hptr
      exact update_of_ne (fun hp => hptr (congrArg some hp.symm)) _ _

omit [DecidableEq τ] in
/-- A key that is bound anew takes its references out of use, and no others. -/
theorem Sound.rebind (h : s.Sound) {key : κ} {v : Option Nat} {locals : CoroutineLocal κ V}
    (hr : s.Rebinds key v locals) : (s.rebind key locals).Sound := by
  have hold : ∀ {key' ptr}, key' ≠ key → s.locals.entries key' = some ptr →
      locals.heap.boxes ptr = s.locals.heap.boxes ptr := by
    intro key' ptr hne he
    refine hr.kept ptr (fun hv => ?_) fun hk => hne (h.apart key' key ptr he hk)
    exact absurd (hr.placed ptr hv).1 (Nat.ne_of_lt (h.lt_next he))
  have hbelow : ∀ {ptr}, ptr < s.locals.heap.next → s.locals.heap.boxes ptr = none →
      locals.heap.boxes ptr = none := by
    intro ptr hlt hnone
    by_cases hk : s.locals.entries key = some ptr
    · exact hr.freed ptr hk
    · rw [hr.kept ptr (fun hv => absurd (hr.placed ptr hv).1 (Nat.ne_of_lt hlt)) hk]
      exact hnone
  have hentries : ∀ {key'}, key' ≠ key → locals.entries key' = s.locals.entries key' := by
    intro key' hne
    rw [hr.entries, update_of_ne hne]
  have hself : locals.entries key = v := by rw [hr.entries, update_self]
  have hrebinds : ∀ {key'}, key' ≠ key → (s.rebind key locals).rebinds key' = s.rebinds key' :=
    fun hne => update_of_ne hne _ _
  have hbound : (s.rebind key locals).rebinds key = s.rebinds key + 1 := update_self _ _ _
  refine ⟨fun key' ptr he => ?_, fun key₁ key₂ ptr h₁ h₂ => ?_, fun ptr x hx => ?_, fun ptr hle => ?_,
    fun ref hm => ?_, fun ref hm heq => ?_, fun ref hm hne => ?_⟩
  · by_cases hk : key' = key
    · exact (hr.placed ptr (hself.symm.trans (hk ▸ he))).2.2
    · have he' : s.locals.entries key' = some ptr := (hentries hk).symm.trans he
      show ∃ x, locals.heap.boxes ptr = some x
      rw [hold hk he']
      exact h.live key' ptr he'
  · by_cases hk₁ : key₁ = key
    · by_cases hk₂ : key₂ = key
      · rw [hk₁, hk₂]
      · have hlt := h.lt_next ((hentries hk₂).symm.trans h₂)
        exact absurd (hr.placed ptr (hself.symm.trans (hk₁ ▸ h₁))).1 (Nat.ne_of_lt hlt)
    · by_cases hk₂ : key₂ = key
      · have hlt := h.lt_next ((hentries hk₁).symm.trans h₁)
        exact absurd (hr.placed ptr (hself.symm.trans (hk₂ ▸ h₂))).1 (Nat.ne_of_lt hlt)
      · exact h.apart key₁ key₂ ptr ((hentries hk₁).symm.trans h₁) ((hentries hk₂).symm.trans h₂)
  · have hx' : locals.heap.boxes ptr = some x := hx
    by_cases hv : v = some ptr
    · exact ⟨key, hself.trans hv⟩
    · by_cases hk : s.locals.entries key = some ptr
      · rw [hr.freed ptr hk] at hx'
        cases hx'
      · rw [hr.kept ptr hv hk] at hx'
        obtain ⟨key', he⟩ := h.owned ptr x hx'
        refine ⟨key', (hentries ?_).trans he⟩
        rintro rfl
        exact hk he
  · have hle' : locals.heap.next ≤ ptr := hle
    by_cases hk : s.locals.entries key = some ptr
    · exact hr.freed ptr hk
    · have hv : v ≠ some ptr := fun hv => Nat.not_lt.2 hle' (hr.placed ptr hv).2.1
      exact (hr.kept ptr hv hk).trans (h.fresh ptr (Nat.le_trans hr.next hle'))
  · obtain ⟨hlt, hle⟩ := h.past ref hm
    refine ⟨Nat.lt_of_lt_of_le hlt hr.next, ?_⟩
    by_cases hk : ref.key = key
    · rw [hk, hbound]
      rw [hk] at hle
      exact Nat.le_succ_of_le hle
    · rw [hrebinds hk]
      exact hle
  · have hk : ref.key ≠ key := by
      intro hk
      have hle := (h.past ref hm).2
      rw [hk] at hle heq
      rw [hbound] at heq
      omega
    rw [hrebinds hk] at heq
    obtain ⟨he, htype⟩ := h.valid ref hm heq
    refine ⟨(hentries hk).trans he, fun x hx => htype x ?_⟩
    rw [← hold hk he]
    exact hx
  · show locals.heap.boxes ref.ptr = none
    by_cases hvalid : s.rebinds ref.key = ref.rebinds
    · have hk : ref.key = key := by
        by_contra hk
        exact hne ((hrebinds hk).trans hvalid)
      exact hr.freed ref.ptr (hk ▸ (h.valid ref hm hvalid).1)
    · exact hbelow (h.past ref hm).1 (h.stale ref hm hvalid)

omit [DecidableEq κ] in
theorem lend_ok (h : s.Sound) {key : κ} {t : τ} (hok : ∀ x ∈ s.locals.stored key, x.1 = t)
    (mutable : Bool) :
    s.locals.entries key = none ∧ s.locals.stored key = none ∧
        s.lend key t mutable = .ok (none, s) ∨
      ∃ ptr x, s.locals.entries key = some ptr ∧ s.locals.heap.boxes ptr = some x ∧ x.1 = t ∧
        s.locals.stored key = some x ∧ s.lend key t mutable =
          .ok (some x, { s with refs := s.refs ++ [⟨key, ptr, t, mutable, s.rebinds key⟩] }) := by
  cases he : s.locals.entries key with
  | none =>
    refine .inl ⟨rfl, by rw [CoroutineLocal.stored, he]; rfl, ?_⟩
    rw [lend, CoroutineLocal.get, he]
    rfl
  | some ptr =>
    obtain ⟨x, hx, hstored⟩ := h.stored_eq he
    have htype : x.1 = t := hok x hstored
    refine .inr ⟨ptr, x, rfl, hx, htype, hstored, ?_⟩
    rw [lend, CoroutineLocal.get, he]
    dsimp only
    rw [Heap.deref_of_live hx htype]
    rfl

omit [DecidableEq κ] [DecidableEq τ] in
theorem Sound.lend (h : s.Sound) {key : κ} {ptr : Nat} {x : Sigma V}
    (he : s.locals.entries key = some ptr) (hx : s.locals.heap.boxes ptr = some x)
    (mutable : Bool) :
    Sound { s with refs := s.refs ++ [⟨key, ptr, x.1, mutable, s.rebinds key⟩] } := by
  have hmem : ∀ {ref : Reference κ τ}, ref ∈ s.refs ++ [⟨key, ptr, x.1, mutable, s.rebinds key⟩] →
      ref ∈ s.refs ∨ ref = ⟨key, ptr, x.1, mutable, s.rebinds key⟩ := fun hm =>
    (List.mem_append.1 hm).imp_right List.mem_singleton.1
  refine ⟨h.live, h.apart, h.owned, h.fresh, fun ref hm => ?_, fun ref hm heq => ?_,
    fun ref hm hne => ?_⟩
  · rcases hmem hm with hm | rfl
    · exact h.past ref hm
    · exact ⟨h.lt_next he, Nat.le_refl _⟩
  · rcases hmem hm with hm | rfl
    · exact h.valid ref hm heq
    · refine ⟨he, fun y hy => ?_⟩
      rw [hx] at hy
      cases hy
      rfl
  · rcases hmem hm with hm | rfl
    · exact h.stale ref hm hne
    · exact absurd rfl hne

omit [DecidableEq κ] [DecidableEq τ] in
/-- A value written through a reference has the type that the box had. -/
theorem Sound.write (h : s.Sound) {ref : Reference κ τ} (hm : ref ∈ s.refs)
    (hvalid : s.rebinds ref.key = ref.rebinds) {val : Sigma V} (htype : val.1 = ref.type) :
    Sound { s with locals := { s.locals with heap := { s.locals.heap with
      boxes := update s.locals.heap.boxes ref.ptr (some val) } } } := by
  obtain ⟨he, htypes⟩ := h.valid ref hm hvalid
  obtain ⟨x, hx⟩ := h.live _ _ he
  have hlive : ∀ {ptr}, (∃ y, s.locals.heap.boxes ptr = some y) ↔
      ∃ y, update s.locals.heap.boxes ref.ptr (some val) ptr = some y := by
    intro ptr
    by_cases hp : ptr = ref.ptr
    · subst hp
      rw [update_self]
      exact ⟨fun _ => ⟨val, rfl⟩, fun _ => ⟨x, hx⟩⟩
    · rw [update_of_ne hp]
  refine ⟨fun key ptr hk => hlive.1 (h.live key ptr hk), h.apart, fun ptr y hy => ?_, fun ptr hle => ?_,
    h.past, fun ref' hm' heq => ?_, fun ref' hm' hne => ?_⟩
  · obtain ⟨z, hz⟩ := hlive.2 ⟨y, hy⟩
    exact h.owned ptr z hz
  · have hp : ptr ≠ ref.ptr := by
      rintro rfl
      exact Nat.not_lt.2 hle (h.lt_next he)
    exact (update_of_ne hp _ _).trans (h.fresh ptr hle)
  · obtain ⟨he', htypes'⟩ := h.valid ref' hm' heq
    refine ⟨he', fun y hy => ?_⟩
    dsimp only at hy
    by_cases hp : ref'.ptr = ref.ptr
    · rw [hp, update_self, Option.some.injEq] at hy
      rw [← hy, htype, ← htypes x hx]
      exact htypes' x (hp ▸ hx)
    · rw [update_of_ne hp] at hy
      exact htypes' y hy
  · have hnone := h.stale ref' hm' hne
    have hp : ref'.ptr ≠ ref.ptr := by
      intro hp
      rw [hp, hx] at hnone
      cases hnone
    exact (update_of_ne hp _ _).trans hnone

end LocalRun

/-! What `CoroutineLocal` is for: a map from keys to values, with handles on the keys. -/

structure TypedMap (κ : Type*) {τ : Type*} (V : τ → Type*) where
  entries : κ → Option (Sigma V) := fun _ => none
  handles : List (κ × τ × Bool) := []

namespace TypedMap

open LocalRun

variable [DecidableEq κ] [DecidableEq τ]

def lend (m : TypedMap κ V) (key : κ) (t : τ) (mutable : Bool) : TypedMap κ V :=
  if (m.entries key).isSome then { m with handles := m.handles ++ [(key, t, mutable)] } else m

omit [DecidableEq κ] [DecidableEq τ] in
theorem lend_none {m : TypedMap κ V} {key : κ} (h : m.entries key = none) (t : τ)
    (mutable : Bool) : m.lend key t mutable = m := by
  rw [lend, h]
  rfl

omit [DecidableEq κ] [DecidableEq τ] in
theorem lend_some {m : TypedMap κ V} {key : κ} {x : Sigma V} (h : m.entries key = some x) (t : τ)
    (mutable : Bool) :
    m.lend key t mutable = { m with handles := m.handles ++ [(key, t, mutable)] } := by
  rw [lend, h]
  rfl

def exec (m : TypedMap κ V) : Act κ V → Option (Option (Sigma V) × TypedMap κ V)
  | .put key val => some (m.entries key, { m with entries := update m.entries key (some val) })
  | .get key t => some (m.entries key, m.lend key t false)
  | .getMut key t => some (m.entries key, m.lend key t true)
  | .remove key _ => some (m.entries key, { m with entries := update m.entries key none })
  | .read r => m.handles[r]?.map fun handle => (m.entries handle.1, m)
  | .write r val => m.handles[r]?.bind fun handle =>
      if handle.2.2 = true ∧ val.1 = handle.2.1 then
        some (none, { m with entries := update m.entries handle.1 (some val) })
      else none

end TypedMap

namespace LocalRun

variable [DecidableEq κ] [DecidableEq τ] {s t : LocalRun κ V}

def handle (ref : Reference κ τ) : κ × τ × Bool := (ref.key, ref.type, ref.mutable)

def toMap (s : LocalRun κ V) : TypedMap κ V := ⟨s.locals.stored, s.refs.map handle⟩

omit [DecidableEq τ] in
theorem Rebinds.toMap (h : s.Sound) {key : κ} {v : Option Nat} {locals : CoroutineLocal κ V}
    (hr : s.Rebinds key v locals) :
    (s.rebind key locals).toMap =
      { s.toMap with entries := update s.toMap.entries key (v.bind locals.heap.boxes) } := by
  have hstored : locals.stored = update s.locals.stored key (v.bind locals.heap.boxes) := by
    funext key'
    by_cases hk : key' = key
    · subst hk
      rw [update_self, CoroutineLocal.stored, hr.entries, update_self]
    · rw [update_of_ne hk, CoroutineLocal.stored, CoroutineLocal.stored, hr.entries, update_of_ne hk]
      cases he : s.locals.entries key' with
      | none => rfl
      | some ptr =>
        refine hr.kept ptr (fun hv => ?_) fun hk' => hk (h.apart key' key ptr he hk')
        exact absurd (hr.placed ptr hv).1 (Nat.ne_of_lt (h.lt_next he))
  show (⟨locals.stored, _⟩ : TypedMap κ V) = ⟨_, _⟩
  rw [hstored]
  rfl

omit [DecidableEq κ] [DecidableEq τ] in
/-- What is behind a reference whose key is bound as it was. -/
theorem Sound.behind (h : s.Sound) {r : Nat} {ref : Reference κ τ} (hr : s.refs[r]? = some ref)
    (hvalid : s.rebinds ref.key = ref.rebinds) :
    ∃ x, s.locals.heap.boxes ref.ptr = some x ∧ x.1 = ref.type ∧
      s.locals.stored ref.key = some x ∧ s.locals.entries ref.key = some ref.ptr := by
  obtain ⟨he, htypes⟩ := h.valid ref (List.mem_of_getElem? hr) hvalid
  obtain ⟨x, hx, hstored⟩ := h.stored_eq he
  exact ⟨x, hx, htypes x hx, hstored, he⟩

omit [DecidableEq κ] [DecidableEq τ] in
theorem handles_getElem? (s : LocalRun κ V) (r : Nat) :
    s.toMap.handles[r]? = s.refs[r]?.map handle := List.getElem?_map

omit [DecidableEq τ] in
theorem stored_write (h : s.Sound) {key : κ} {ptr : Nat} (he : s.locals.entries key = some ptr)
    (val : Sigma V) :
    CoroutineLocal.stored { s.locals with heap := { s.locals.heap with
      boxes := update s.locals.heap.boxes ptr (some val) } } =
        update s.locals.stored key (some val) := by
  funext key'
  by_cases hk : key' = key
  · subst hk
    rw [update_self, CoroutineLocal.stored, he]
    exact update_self _ _ _
  · rw [update_of_ne hk, CoroutineLocal.stored, CoroutineLocal.stored]
    cases he' : s.locals.entries key' with
    | none => rfl
    | some ptr' =>
      refine update_of_ne (fun hp => hk (h.apart key' key ptr' he' ?_)) _ _
      rw [hp]
      exact he

omit [DecidableEq τ] in
theorem toMap_write (h : s.Sound) {key : κ} {ptr : Nat} (he : s.locals.entries key = some ptr)
    (val : Sigma V) :
    toMap { s with locals := { s.locals with heap := { s.locals.heap with
      boxes := update s.locals.heap.boxes ptr (some val) } } } =
        { s.toMap with entries := update s.toMap.entries key (some val) } :=
  congrArg (TypedMap.mk · (s.refs.map handle)) (stored_write h he val)

/-- A proper step goes through, and it is one of the map. -/
theorem exec_proper (h : s.Sound) {a : Act κ V} (hok : s.Proper a) :
    s.exec a = none ∧ s.toMap.exec a = none ∨
      ∃ out t, s.exec a = some (.ok (out, t)) ∧ t.Sound ∧ s.toMap.exec a = some (out, t.toMap) := by
  have hlend : ∀ (key : κ) (t : τ) (mutable : Bool), (∀ x ∈ s.locals.stored key, x.1 = t) →
      ∃ out t', s.lend key t mutable = .ok (out, t') ∧ t'.Sound ∧
        out = s.toMap.entries key ∧ t'.toMap = s.toMap.lend key t mutable := by
    intro key t mutable hok
    rcases lend_ok h hok mutable with ⟨-, hstored, hl⟩ | ⟨ptr, x, he, hx, rfl, hstored, hl⟩
    · exact ⟨_, _, hl, h, hstored.symm, (TypedMap.lend_none hstored t mutable).symm⟩
    · refine ⟨_, _, hl, h.lend he hx mutable, hstored.symm, ?_⟩
      rw [TypedMap.lend_some (m := s.toMap) hstored, toMap, List.map_append]
      rfl
  cases a with
  | put key val =>
    obtain ⟨locals, hput, hr, hnew⟩ := put_ok h hok
    refine .inr ⟨_, _, by rw [exec, hput]; rfl, h.rebind hr, ?_⟩
    rw [hr.toMap h, Option.bind_some, hnew]
    rfl
  | get key t =>
    obtain ⟨out, t', hl, hsound, rfl, hmap⟩ := hlend key t false hok
    exact .inr ⟨_, _, by rw [exec, hl], hsound, by rw [TypedMap.exec, hmap]⟩
  | getMut key t =>
    obtain ⟨out, t', hl, hsound, rfl, hmap⟩ := hlend key t true hok
    exact .inr ⟨_, _, by rw [exec, hl], hsound, by rw [TypedMap.exec, hmap]⟩
  | remove key t =>
    obtain ⟨locals, hremove, hr⟩ := remove_ok h hok
    refine .inr ⟨_, _, by rw [exec, hremove]; rfl, h.rebind hr, ?_⟩
    rw [hr.toMap h]
    rfl
  | read r =>
    cases hr : s.refs[r]? with
    | none => exact .inl ⟨by rw [exec, hr]; rfl, by rw [TypedMap.exec, handles_getElem?, hr]; rfl⟩
    | some ref =>
      obtain ⟨x, hx, htype, hstored, -⟩ := h.behind hr (hok ref hr)
      refine .inr ⟨some x, s, ?_, h, ?_⟩
      · rw [exec, hr, Option.map_some, Heap.deref_of_live hx htype]
        rfl
      · rw [TypedMap.exec, handles_getElem?, hr, ← hstored]
        rfl
  | write r val =>
    cases hr : s.refs[r]? with
    | none => exact .inl ⟨by rw [exec, hr]; rfl, by rw [TypedMap.exec, handles_getElem?, hr]; rfl⟩
    | some ref =>
      by_cases hmay : ref.mutable = true ∧ val.1 = ref.type
      · have hvalid := hok ref hr hmay.1 hmay.2
        obtain ⟨x, hx, htype, -, he⟩ := h.behind hr hvalid
        have hderef := Heap.deref_of_live hx (htype.trans hmay.2.symm)
        refine .inr ⟨none, _, ?_, h.write (List.mem_of_getElem? hr) hvalid hmay.2, ?_⟩
        · rw [exec, hr, Option.bind_some, if_pos hmay, Heap.write, hderef]
          rfl
        · rw [TypedMap.exec, handles_getElem?, hr, toMap_write h he]
          exact if_pos hmay
      · refine .inl ⟨?_, ?_⟩
        · rw [exec, hr, Option.bind_some, if_neg hmay]
        · rw [TypedMap.exec, handles_getElem?, hr]
          exact if_neg hmay

/-- Any other step is a fault. -/
theorem exec_improper (h : s.Sound) {a : Act κ V} (hno : ¬ s.Proper a) :
    ∃ fault, s.exec a = some (.error fault) := by
  have hheld : ∀ {key : κ} {x : Sigma V}, x ∈ s.locals.stored key →
      ∃ ptr, s.locals.entries key = some ptr ∧ s.locals.heap.boxes ptr = some x := by
    intro key x hx
    obtain ⟨ptr, he, hbox⟩ := Option.bind_eq_some_iff.1 hx
    exact ⟨ptr, he, hbox⟩
  have hother : ∀ {heap : Heap V} {ptr : Nat} {x : Sigma V} {t : τ}, heap.boxes ptr = some x →
      x.1 ≠ t → ∃ fault, heap.deref ptr t = .error fault := by
    intro heap ptr x t hbox hne
    refine heap.deref_faults ptr t fun y hy => ?_
    rw [hbox] at hy
    cases hy
    exact hne
  have hlend : ∀ (key : κ) (t : τ) (mutable : Bool), ¬ (∀ x ∈ s.locals.stored key, x.1 = t) →
      ∃ fault, s.lend key t mutable = .error fault := by
    intro key t mutable hno
    simp only [not_forall] at hno
    obtain ⟨x, hx, hne⟩ := hno
    obtain ⟨ptr, he, hbox⟩ := hheld hx
    obtain ⟨fault, hfault⟩ := hother hbox hne
    refine ⟨fault, ?_⟩
    rw [lend, CoroutineLocal.get, he]
    dsimp only
    rw [hfault]
    rfl
  have hstale : ∀ {r : Nat} {ref : Reference κ τ}, s.refs[r]? = some ref →
      s.rebinds ref.key ≠ ref.rebinds → ∀ t, ∃ fault,
        s.locals.heap.deref ref.ptr t = .error fault := by
    intro r ref hr hne t
    refine Heap.deref_faults _ _ _ fun x hx => ?_
    rw [h.stale ref (List.mem_of_getElem? hr) hne] at hx
    cases hx
  cases a with
  | put key val =>
    simp only [Proper, not_forall] at hno
    obtain ⟨x, hx, hne⟩ := hno
    obtain ⟨ptr, he, hbox⟩ := hheld hx
    have hbox' : (s.locals.heap.leak val).2.boxes ptr = some x := by
      rw [← hbox]
      exact update_of_ne (Nat.ne_of_lt (h.lt_next he)) _ _
    obtain ⟨fault, hfault⟩ := hother hbox' hne
    refine ⟨fault, ?_⟩
    simp only [exec, CoroutineLocal.put, he, Heap.fromRaw, hfault]
    rfl
  | get key t =>
    obtain ⟨fault, hf⟩ := hlend key t false hno
    exact ⟨fault, by rw [exec, hf]⟩
  | getMut key t =>
    obtain ⟨fault, hf⟩ := hlend key t true hno
    exact ⟨fault, by rw [exec, hf]⟩
  | remove key t =>
    simp only [Proper, not_forall] at hno
    obtain ⟨x, hx, hne⟩ := hno
    obtain ⟨ptr, he, hbox⟩ := hheld hx
    obtain ⟨fault, hfault⟩ := hother hbox hne
    refine ⟨fault, ?_⟩
    simp only [exec, CoroutineLocal.remove, he, Heap.fromRaw, hfault]
    rfl
  | read r =>
    simp only [Proper, not_forall] at hno
    obtain ⟨ref, hr, hne⟩ := hno
    obtain ⟨fault, hfault⟩ := hstale hr hne ref.type
    have hr' : s.refs[r]? = some ref := hr
    exact ⟨fault, by rw [exec, hr', Option.map_some, hfault]; rfl⟩
  | write r val =>
    simp only [Proper, not_forall] at hno
    obtain ⟨ref, hr, hmutable, htype, hne⟩ := hno
    obtain ⟨fault, hfault⟩ := hstale hr hne val.1
    have hr' : s.refs[r]? = some ref := hr
    refine ⟨fault, ?_⟩
    rw [exec, hr', Option.bind_some, if_pos ⟨hmutable, htype⟩, Heap.write, hfault]
    rfl

theorem faultless_iff (h : s.Sound) (a : Act κ V) : s.Faultless a ↔ s.Proper a := by
  constructor
  · intro hok
    by_contra hno
    obtain ⟨fault, hf⟩ := exec_improper h hno
    exact hok fault hf
  · intro hok fault hf
    rcases exec_proper h hok with ⟨hnone, -⟩ | ⟨out, t, hsome, -⟩
    · rw [hnone] at hf
      cases hf
    · rw [hsome] at hf
      cases hf

theorem perform_proper (h : s.Sound) {a : Act κ V} (hok : s.Proper a) :
    (s.perform a).map (fun (out, t) => (out, t.toMap)) = s.toMap.exec a ∧
      ∀ out t, s.perform a = some (out, t) → t.Sound := by
  rcases exec_proper h hok with ⟨hnone, hmap⟩ | ⟨out, t, hsome, hsound, hmap⟩
  · rw [perform, hnone, hmap]
    exact ⟨rfl, nofun⟩
  · rw [perform, hsome, hmap]
    refine ⟨rfl, fun out' t' he => ?_⟩
    cases he
    exact hsound

omit [DecidableEq κ] [DecidableEq τ] in
theorem fresh_sound : ({} : LocalRun κ V).Sound where
  live := nofun
  apart := nofun
  owned := nofun
  fresh := fun _ _ => rfl
  past := nofun
  valid := nofun
  stale := nofun

theorem Sound.step (h : s.Sound) {a : Act κ V} (hok : s.Proper a) (hs : s.step a = some t) :
    t.Sound := by
  obtain ⟨⟨out, t'⟩, hp, rfl⟩ := Option.map_eq_some_iff.1 hs
  exact (perform_proper h hok).2 out t' hp

theorem Sound.guarded_iff (h : s.Sound) (as : List (Act κ V)) :
    Guarded LocalRun.step Faultless s as ↔ Guarded LocalRun.step Proper s as :=
  Transition.guarded_iff Sound (fun _ _ _ hi hok hs => hi.step ((faultless_iff hi _).1 hok) hs)
    (fun _ a hi => faultless_iff hi a) h as

/-- The references and the types are used properly throughout, or there is a fault. -/
theorem no_fault_iff (as : List (Act κ V)) :
    Guarded LocalRun.step Faultless {} as ↔ Guarded LocalRun.step Proper {} as :=
  fresh_sound.guarded_iff as

/-- A run without faults returns what the map returns, and there are no boxes but those of the
entries. -/
theorem results_of_map (as : List (Act κ V)) (h : Guarded LocalRun.step Faultless {} as) :
    (Replay.outputs perform ({} : LocalRun κ V) as).map (fun (outs, t) => (outs, t.toMap)) =
        Replay.outputs TypedMap.exec {} as ∧
      ∀ outs t, Replay.outputs perform ({} : LocalRun κ V) as = some (outs, t) →
        ∀ ptr, (∃ x, t.locals.heap.boxes ptr = some x) ↔
          ∃! key, t.locals.entries key = some ptr := by
  obtain ⟨hsame, hend⟩ := Replay.outputs_eq toMap (fun _ _ hi hok => perform_proper hi hok)
    (s := ({} : LocalRun κ V)) fresh_sound ((fresh_sound.guarded_iff as).1 h)
  refine ⟨hsame, fun outs t ht ptr => ⟨fun ⟨x, hx⟩ => ?_, fun ⟨key, he, _⟩ => ?_⟩⟩
  · obtain ⟨key, he⟩ := (hend outs t ht).owned ptr x hx
    exact ⟨key, he, fun key' he' => (hend outs t ht).apart key' key ptr he' he⟩
  · exact (hend outs t ht).live key ptr he

omit [DecidableEq κ] in
instance (s : LocalRun κ V) : (a : Act κ V) → Decidable (s.Proper a)
  | .put key val => inferInstanceAs (Decidable (∀ x ∈ s.locals.stored key, x.1 = val.1))
  | .get key t | .getMut key t | .remove key t =>
    inferInstanceAs (Decidable (∀ x ∈ s.locals.stored key, x.1 = t))
  | .read r => inferInstanceAs (Decidable (∀ ref ∈ s.refs[r]?, s.rebinds ref.key = ref.rebinds))
  | .write r val => inferInstanceAs (Decidable (∀ ref ∈ s.refs[r]?, ref.mutable = true →
      val.1 = ref.type → s.rebinds ref.key = ref.rebinds))

def number (x : Nat) : Sigma fun _ : Unit => Nat := ⟨(), x⟩

def replaced : List (Act String fun _ : Unit => Nat) :=
  [.put "1" (number 1), .put "1" (number 2), .get "1" (), .getMut "1" (), .write 1 (number 3),
    .read 0, .remove "1" ()]

theorem results_of_map_replaced :
    ∃ t : LocalRun String fun _ : Unit => Nat, Replay.outputs perform {} replaced =
        some ([none, some (number 1), some (number 2), some (number 2), none, some (number 3),
          some (number 3)], t) ∧
      (Replay.outputs perform ({} : LocalRun String fun _ : Unit => Nat) replaced).map
          (fun (outs, t) => (outs, t.toMap)) = Replay.outputs TypedMap.exec {} replaced := by
  obtain ⟨⟨t, hrun⟩, u, hguarded⟩ : (∃ t : LocalRun String fun _ : Unit => Nat,
      Replay.outputs perform {} replaced =
        some ([none, some (number 1), some (number 2), some (number 2), none, some (number 3),
          some (number 3)], t)) ∧
      ∃ u, runGuarded LocalRun.step Proper ({} : LocalRun String fun _ : Unit => Nat) replaced =
        some u := ⟨⟨_, rfl⟩, _, rfl⟩
  have hproper : Guarded LocalRun.step Faultless ({} : LocalRun String fun _ : Unit => Nat)
      replaced := (fresh_sound.guarded_iff _).2 (.of_runGuarded hguarded)
  exact ⟨t, hrun, (results_of_map replaced hproper).1⟩

/-- A reference is read after its key was removed. -/
example : ¬ Guarded LocalRun.step Faultless ({} : LocalRun String fun _ : Unit => Nat)
    [.put "1" (number 1), .get "1" (), .remove "1" (), .read 0] := by
  intro h
  exact (h.2 _ rfl).2 _ rfl |>.2 _ rfl |>.1 .dangling rfl

end LocalRun

end OpenCoroutine
