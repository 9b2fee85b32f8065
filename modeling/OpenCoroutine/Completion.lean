import OpenCoroutine.Transfers

/-! Where a hooked call does what the caller of the plain one expects: it is the plain call
if it need not wait, and a blocking write goes on until it is done. The first fails for a
request of size 0, for a descriptor that `fcntl` cannot control and for an array of `iovec`s,
which the call frees; the second for every write whose first success is short. -/

namespace OpenCoroutine

namespace Nio

/-- The hooked call makes one inner call, for the same bytes and with the same other
arguments, returns its result, and leaves its caller the array that it was passed in. -/
structure Plain (call : IoCall) (round : Round) (h : Hooked IoCall) : Prop where
  once : ∃ call', h.calls = [call'] ∧ call.Rest 0 call'
  returns : h.ending = .returned round.r (if round.r = -1 then round.errno else 0)
  leaves : h.freed = false

theorem Round.last_eq {round : Round}
    (h : round.r ≠ -1 ∨ round.errno ≠ EAGAIN ∧ round.errno ≠ EINTR) :
    round.retries = false ∧
      round.last = .returned round.r (if round.r = -1 then round.errno else 0) := by
  by_cases hr : round.r = -1
  · obtain ⟨ha, hi⟩ := h.resolve_left (not_not_intro hr)
    exact ⟨by simp [retries, ha, hi], by simp [last, hr, ha]⟩
  · exact ⟨by simp [retries, hr], by simp [last, hr]⟩

/-- A call that does not need to wait is the plain call if and only if `fcntl` can control
the descriptor, the size of a transfer does not add up to 0, and no array of `iovec`s is
passed in. -/
theorem plain_iff (d : Descriptor) (call : IoCall) {round : Round}
    (hround : round.r ≠ -1 ∨ round.errno ≠ EAGAIN ∧ round.errno ≠ EINTR) (rounds : List Round)
    (errno : Int32) :
    Plain call round (hooked d (round :: rounds) errno call) ↔
      d.Controllable ∧ (call.isTransfer = true → call.length ≠ 0) ∧ call.array = [] := by
  obtain ⟨hretries, hlast⟩ := round.last_eq hround
  have hnot : ¬ round.retries = true := by rw [hretries]; exact Bool.false_ne_true
  rcases hooked_cases d (round :: rounds) errno call with ⟨hd, he, hc⟩ | ⟨hd, he, hc⟩
  · rcases loop_cases call (round :: rounds) errno with ⟨⟨ht, hlength⟩, hl⟩ | ⟨hlength, hl⟩
    · rw [hl] at hc
      refine iff_of_false (fun h => ?_) fun h => h.2.1 ht hlength
      obtain ⟨call', hcalls, -⟩ := h.once
      rw [hc] at hcalls
      cases hcalls
    · have hends : (loop (round :: rounds) errno call).ending =
          .returned round.r (if round.r = -1 then round.errno else 0) := by
        rw [hl.ending, ending, if_neg hnot, hlast]
      have hone : (loop (round :: rounds) errno call).calls.length = 1 := by
        rw [hl.turns, turns, if_neg hnot]
      obtain ⟨call', hcalls⟩ := List.length_eq_one_iff.1 hone
      have hrest : call.Rest 0 call' := hl.rest call' (by rw [hcalls]; exact List.mem_singleton_self _)
      have hfreed : (hooked d (round :: rounds) errno call).freed = !call.array.isEmpty :=
        (hooked_freed hd _ errno call).trans (loop_freed hends)
      constructor
      · intro h
        refine ⟨hd, fun ht => UInt64.pos_iff_ne_zero.1 (hlength ht), ?_⟩
        have hleaves := h.leaves
        rw [hfreed, Bool.not_eq_false', List.isEmpty_iff] at hleaves
        exact hleaves
      · rintro ⟨-, -, harray⟩
        refine ⟨⟨call', hc.trans hcalls, hrest⟩, he.trans hends, ?_⟩
        rw [hfreed, harray]
        rfl
  · refine iff_of_false (fun h => ?_) fun h => hd h.1
    have hreturns := h.returns
    rw [he] at hreturns
    cases hreturns

theorem plain_iff_read :
    Plain (.read 64 8) ⟨5, 0, false, 0⟩
      (hooked ⟨some 2, true⟩ [⟨5, 0, false, 0⟩] 0 (.read 64 8)) :=
  (plain_iff ⟨some 2, true⟩ (.read 64 8) (show (5 : Int64) ≠ -1 ∨ _ from .inl (by decide)) [] 0).2
    ⟨by decide, fun _ => by decide, rfl⟩

/-- An empty datagram is not sent, a closed descriptor ends the process, and a call with an
array of `iovec`s frees it. -/
theorem hooked_not_plain :
    (hooked ⟨some 2, true⟩ [⟨0, 0, false, 0⟩] 0 (.send 64 0 0)).calls = [] ∧
      ¬ Plain (.send 64 0 0) ⟨0, 0, false, 0⟩
        (hooked ⟨some 2, true⟩ [⟨0, 0, false, 0⟩] 0 (.send 64 0 0)) ∧
      (hooked ⟨none, true⟩ [⟨-1, 9, false, 0⟩] 0 (.recv 64 8 0)).ending = .panicked ∧
      ¬ Plain (.recv 64 8 0) ⟨-1, 9, false, 0⟩
        (hooked ⟨none, true⟩ [⟨-1, 9, false, 0⟩] 0 (.recv 64 8 0)) ∧
      (hooked ⟨some 2, true⟩ [⟨8, 0, false, 0⟩] 0 (.readv ⟨[⟨64, 8⟩], by decide⟩)).freed = true ∧
      ¬ Plain (.readv ⟨[⟨64, 8⟩], by decide⟩) ⟨8, 0, false, 0⟩
        (hooked ⟨some 2, true⟩ [⟨8, 0, false, 0⟩] 0 (.readv ⟨[⟨64, 8⟩], by decide⟩)) := by
  refine ⟨rfl, fun h => ?_, rfl, fun h => ?_, rfl, fun h => ?_⟩
  · obtain ⟨call', hcalls, -⟩ := h.once
    cases hcalls
  · obtain ⟨call', hcalls, -⟩ := h.once
    cases hcalls
  · have hleaves := h.leaves
    cases hleaves

/-- The number of bytes that the call asks for. -/
def IoCall.requested (call : IoCall) : Nat := (call.buffers.map fun v => v.len.toNat).sum

theorem totalLen_toNat (iov : List Iovec) :
    (totalLen iov).toNat = (iov.map fun v => v.len.toNat).sum % 2 ^ 64 := by
  have hfold : ∀ length : UInt64, (iov.foldl (fun length v => length + v.len) length).toNat =
      (length.toNat + (iov.map fun v => v.len.toNat).sum) % 2 ^ 64 := by
    induction iov with
    | nil =>
      intro length
      have hlt := length.toNat_lt
      simp only [List.foldl_nil, List.map_nil, List.sum_nil, Nat.add_zero]
      omega
    | cons v iov ih =>
      intro length
      rw [List.foldl_cons, ih, UInt64.toNat_add, List.map_cons, List.sum_cons]
      omega
  rw [totalLen, hfold]
  simp

theorem IoCall.length_toNat (call : IoCall) : call.length.toNat = call.requested % 2 ^ 64 :=
  totalLen_toNat call.buffers

/-- The round fails for another reason than that the call has to be made again, or the wait
after it fails. -/
def Round.Fails (round : Round) : Prop :=
  round.r = -1 ∧ (round.errno ≠ EAGAIN ∧ round.errno ≠ EINTR ∨
    round.errno = EAGAIN ∧ round.woken = false)

/-- The call has returned the whole request, or its last round has failed. -/
def Completed (call : IoCall) (rounds : List Round) (h : Hooked IoCall) (r : Int64) : Prop :=
  r.toInt = call.requested ∧ h.transferred rounds = call.requested ∨
    ∃ round, h.calls ≠ [] ∧ rounds[h.calls.length - 1]? = some round ∧ round.Fails

/-- The first round that the loop does not repeat transfers a part of the request only. -/
def ShortFirst (requested : Nat) : List Round → Prop
  | [] => False
  | round :: rounds =>
    if round.retries then ShortFirst requested rounds
    else 0 ≤ round.r ∧ round.r.toInt < requested

instance decidableShortFirst (requested : Nat) :
    (rounds : List Round) → Decidable (ShortFirst requested rounds)
  | [] => inferInstanceAs (Decidable False)
  | round :: rounds =>
    have : Decidable (ShortFirst requested rounds) := decidableShortFirst requested rounds
    inferInstanceAs (Decidable (if round.retries = true then ShortFirst requested rounds
      else 0 ≤ round.r ∧ round.r.toInt < requested))

theorem fails_iff {round : Round} (hretries : round.retries = false) :
    round.Fails ↔ round.r = -1 := by
  refine ⟨fun h => h.1, fun hr => ⟨hr, ?_⟩⟩
  by_cases ha : round.errno = EAGAIN
  · refine .inr ⟨ha, ?_⟩
    cases hw : round.woken with
    | false => rfl
    | true => simp [Round.retries, hr, ha, hw] at hretries
  · refine .inl ⟨ha, fun hi => ?_⟩
    simp [Round.retries, hr, hi] at hretries

theorem turns_pos (rounds : List Round) : 0 < turns rounds := by
  cases rounds with
  | nil => exact Nat.one_pos
  | cons round rounds =>
    rw [turns]
    split <;> omega

/-- The round with which a loop returns. -/
theorem ending_returned {rounds : List Round} {r : Int64} {errno : Int32}
    (hend : ending rounds = .returned r errno) (requested : Nat) :
    ∃ round ∈ rounds, rounds[turns rounds - 1]? = some round ∧ round.retries = false ∧
      round.r = r ∧ (ShortFirst requested rounds ↔ 0 ≤ r ∧ r.toInt < requested) := by
  induction rounds with
  | nil => cases hend
  | cons round rounds ih =>
    by_cases ht : round.retries = true
    · rw [ending, if_pos ht] at hend
      obtain ⟨round', hmem, hget, hretries, hr, hshort⟩ := ih hend
      have hturns := turns_pos rounds
      refine ⟨round', List.mem_cons_of_mem _ hmem, ?_, hretries, hr, ?_⟩
      · rw [turns, if_pos ht, Nat.add_sub_cancel, ← hget]
        obtain ⟨i, hi⟩ : ∃ i, turns rounds = i + 1 := ⟨turns rounds - 1, by omega⟩
        rw [hi, List.getElem?_cons_succ, Nat.add_sub_cancel]
      · rw [ShortFirst, if_pos ht]
        exact hshort
    · obtain ⟨errno', hlast⟩ := round.last_returned
      rw [ending, if_neg ht, hlast, Ending.returned.injEq] at hend
      refine ⟨round, List.mem_cons_self, ?_, by simpa using ht, hend.1, ?_⟩
      · rw [turns, if_neg ht]
        rfl
      · rw [ShortFirst, if_neg ht, hend.1]

/-- A write returns completed if and only if its first success is not short. Sizes that add
up to 0 without being 0 are never written. -/
theorem write_completed_iff (d : Descriptor) {call : IoCall} (hw : call.isWrite = true)
    {rounds : List Round}
    (hrounds : ∀ round ∈ rounds, round.r = -1 ∨ 0 ≤ round.r ∧ round.r.toInt ≤ call.requested)
    {errno : Int32} {r : Int64} {errno' : Int32}
    (hr : (hooked d rounds errno call).ending = .returned r errno') :
    Completed call rounds (hooked d rounds errno call) r ↔
      if call.length = 0 then call.requested = 0 else ¬ ShortFirst call.requested rounds := by
  have ht : call.isTransfer = true := by
    cases call <;> first | rfl | cases hw
  rcases hooked_cases d rounds errno call with ⟨-, he, hc⟩ | ⟨-, he, -⟩
  · rw [he] at hr
    rcases loop_cases call rounds errno with ⟨⟨-, hlength⟩, hl⟩ | ⟨hlength, hl⟩
    · rw [if_pos hlength, Completed, Hooked.transferred, hc, hl]
      rw [hl, Ending.returned.injEq] at hr
      rw [← hr.1]
      constructor
      · rintro (⟨-, htotal⟩ | ⟨round, hne, -⟩)
        · exact htotal.symm
        · exact absurd rfl hne
      · exact fun hz => .inl ⟨by rw [hz]; rfl, hz.symm⟩
    · have hpos : 0 < call.length := hlength ht
      have hne : ¬ call.length = 0 := UInt64.pos_iff_ne_zero.1 hpos
      have hrequested : call.requested ≠ 0 := by
        intro hz
        have hzero := call.length_toNat
        rw [hz] at hzero
        exact hne (UInt64.toNat_inj.1 hzero)
      rw [hl.ending] at hr
      obtain ⟨round, hmem, hget, hretries, hround, hshort⟩ := ending_returned hr call.requested
      obtain ⟨htotal, -⟩ := transferred_turns hr
      have hcalls : (loop rounds errno call).calls ≠ [] := by
        rw [← List.length_pos_iff, hl.turns]
        exact turns_pos rounds
      rw [if_neg hne, hshort, Completed, Hooked.transferred, hc, hl.turns, htotal]
      rcases hrounds round hmem with hneg | ⟨hpos, hle⟩
      · have hfails : round.Fails := (fails_iff hretries).2 hneg
        refine iff_of_true (.inr ⟨round, hcalls, hget, hfails⟩) fun h => ?_
        rw [← hround, hneg] at h
        exact absurd h.1 (by decide)
      · rw [hround] at hpos hle
        have hnonneg : 0 ≤ r.toInt := by simpa using Int64.le_iff_toInt_le.1 hpos
        constructor
        · rintro (⟨hall, -⟩ | ⟨round', -, hget', hfails⟩) ⟨-, hlt⟩
          · omega
          · rw [hget, Option.some.injEq] at hget'
            rw [← hget'] at hfails
            rw [← hround, hfails.1] at hpos
            exact absurd hpos (by decide)
        · intro hshort
          have hge : ¬ r.toInt < call.requested := fun hlt => hshort ⟨hpos, hlt⟩
          exact .inl ⟨by omega, by omega⟩
  · rw [he] at hr
    cases hr

theorem write_completed_iff_waited :
    Completed (.write 64 10) [⟨-1, EAGAIN, true, 0⟩, ⟨10, 0, false, 0⟩]
      (hooked ⟨some 0, true⟩ [⟨-1, EAGAIN, true, 0⟩, ⟨10, 0, false, 0⟩] 0 (.write 64 10)) 10 :=
  (write_completed_iff ⟨some 0, true⟩ (show (IoCall.write 64 10).isWrite = true from rfl)
    (by decide) (show (hooked _ _ 0 _).ending = .returned 10 0 by decide)).2
      (by decide)

/-- Four of ten bytes are written, and nothing is tried for the other six. -/
theorem write_cut_short :
    (hooked ⟨some 0, true⟩ [⟨4, 0, false, 0⟩, ⟨6, 0, false, 0⟩] 0 (.write 64 10)).ending =
        .returned 4 0 ∧
      (hooked ⟨some 0, true⟩ [⟨4, 0, false, 0⟩, ⟨6, 0, false, 0⟩] 0 (.write 64 10)).calls =
        [.write 64 10] ∧
      ¬ Completed (.write 64 10) [⟨4, 0, false, 0⟩, ⟨6, 0, false, 0⟩]
        (hooked ⟨some 0, true⟩ [⟨4, 0, false, 0⟩, ⟨6, 0, false, 0⟩] 0 (.write 64 10)) 4 := by
  refine ⟨rfl, rfl, ?_⟩
  rintro (⟨h, -⟩ | ⟨round, -, hget, hfails⟩)
  · exact absurd h (by decide)
  · cases hget
    exact absurd hfails.1 (by decide)

end Nio

end OpenCoroutine
