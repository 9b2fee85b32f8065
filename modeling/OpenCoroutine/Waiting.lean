import OpenCoroutine.Idling

/-! A coroutine that waits for a scheduler: it is ready, or a timer delays it until some time.
Whatever is done to the containers it goes on waiting, and a look at the timers after its time
finds it ready. -/

namespace OpenCoroutine

/-- A timer of the scheduler delays the coroutine until `time`. -/
def SchedulerImpl.Delays {n : Nat} (sched : SchedulerImpl n) (coName : String) (time : Nat) :
    Prop :=
  (∃ co : Co, co.name = coName ∧ (time, co) ∈ sched.suspend.elems) ∨
    coName ∈ sched.syscall ∧ (time, coName) ∈ sched.syscallSuspend.elems

theorem TimerList.exists_entry {T : Type*} {l : TimerList T} {time : Nat} {t : T}
    (h : (time, t) ∈ l.elems) : ∃ e ∈ l.entries, e.1 = time := by
  obtain ⟨e, he, ht⟩ := List.mem_flatMap.1 h
  exact ⟨e, he, (timed_fst ht).symm⟩

/-- What sleeps at some time is delayed beyond it. -/
theorem SchedulerImpl.Sleeps.lt {n : Nat} {sched : SchedulerImpl n} {coName : String}
    {time time' : Nat} (h : sched.Sleeps time) (hd : sched.Delays coName time') : time < time' := by
  rcases hd with ⟨co, -, hm⟩ | ⟨-, hm⟩
  · obtain ⟨e, he, rfl⟩ := TimerList.exists_entry hm
    exact h.suspend e he
  · obtain ⟨e, he, rfl⟩ := TimerList.exists_entry hm
    exact h.syscallSuspend e he

namespace View

variable {n : Nat} {now : Nat → Nat}

def Ready (v : View n) (coName : String) : Prop := coName ∈ names v.queue.contents

/-- Ready, or delayed until `time` by a timer of this scheduler. -/
def Waits (v : View n) (coName : String) (time : Nat) : Prop :=
  v.Ready coName ∨ v.sched.Delays coName time

variable {v v' : View n} {coName : String} {time : Nat}

theorem Ready.pushed {cos : List Co} (h : v.Ready coName) (hpush : v.Pushes cos v') :
    v'.Ready coName := by
  refine hpush.keeps (p := fun q => coName ∈ names q.contents) (fun q co hq => ?_) h
  rw [(v.sched.ready.pushBack_gets q co).contents, names_add]
  exact Multiset.mem_add.2 (.inr hq)

theorem ready_pushReady (v : View n) (co : Co) : (v.pushReady co).Ready co.name := by
  rw [Ready, contents_pushReady, names_add, names_singleton]
  exact Multiset.mem_add.2 (.inl (Multiset.mem_singleton_self _))

theorem Sound.extracted (h : v.Sound now) {co : Co} {syscall : SyscallTable}
    (he : v.sched.syscall.extract coName = (some co, syscall)) :
    co.name = coName ∧ co.state.isSystemCall = true := by
  obtain ⟨hname, -, hst⟩ :=
    h.syscall _ ((SyscallTable.entries_extract he).mem_iff.2 List.mem_cons_self)
  exact ⟨hname, hst⟩

theorem mem_extracted {table syscall : SyscallTable} {co : Option Co} {coName' : String}
    (he : table.extract coName' = (co, syscall)) (hne : coName ≠ coName') (hm : coName ∈ table) :
    coName ∈ syscall := by
  rw [AList.extract_eq_lookup_erase, Prod.mk.injEq] at he
  rw [← he.2]
  exact AList.mem_erase.2 ⟨hne, hm⟩

/-- All coroutines of an entry that is due become ready. -/
theorem wakeEntry_ready {entry : List Co} (hw : Adds now v (names entry) (wakeEntry now entry v))
    {co : Co} (hco : co ∈ entry) : (wakeEntry now entry v).2.Ready co.name := by
  have hsched := (wakeEntry_frame now entry v).1
  have hnames := hw.names
  rw [held, held, hsched, names_add, names_add, ← add_assoc, add_left_inj] at hnames
  rw [Ready, hnames]
  exact Multiset.mem_add.2 (.inl (Multiset.mem_map_of_mem _ (Multiset.mem_coe.2 hco)))

/-- What is in the syscall table stays there, unless the entry names it and it becomes ready. -/
theorem timeoutEntry_waits (entry : List String) (h : v.Sound now)
    (hin : v.Ready coName ∨ coName ∈ v.sched.syscall) :
    (timeoutEntry time entry v).2.Ready coName ∨
      coName ∈ (timeoutEntry time entry v).2.sched.syscall ∧ coName ∉ entry := by
  induction entry generalizing v with
  | nil => exact hin.imp_right fun hm => ⟨hm, List.not_mem_nil⟩
  | cons coName' entry ih =>
    rw [timeoutEntry]
    split
    · rename_i he
      rw [AList.extract_eq_lookup_erase, Prod.mk.injEq] at he
      by_cases hname : coName = coName'
      · have hready := hin.resolve_right fun hm => AList.lookup_eq_none.1 he.1 (hname ▸ hm)
        exact .inl (hready.pushed (timeoutEntry_pushes time entry v).choose_spec)
      · exact (ih h hin).imp_right fun hm =>
          ⟨hm.1, fun hc => (List.mem_cons.1 hc).elim hname hm.2⟩
    · rename_i co syscall he
      obtain ⟨hsame, hst⟩ := h.extracted he
      obtain ⟨co', hco', hname', hdone', hst'⟩ := timeOut_eq hst
      have hmove := (h.moveReady he hname' hdone' hst').sound
      rw [hco']
      have hpush : v.Pushes [co'] (((v.setSyscall syscall).fire co time).pushReady co') :=
        ⟨rfl, rfl, le_rfl⟩
      have hsound : (((v.setSyscall syscall).fire co time).pushReady co').Sound now :=
        ⟨hmove.ready, hmove.suspended, hmove.syscall⟩
      by_cases hname : coName = coName'
      · have hready : (((v.setSyscall syscall).fire co time).pushReady co').Ready coName := by
          rw [hname, ← hsame, ← hname']
          exact ready_pushReady _ co'
        exact .inl (hready.pushed (timeoutEntry_pushes time entry _).choose_spec)
      · refine (ih hsound (hin.imp (fun hr => hr.pushed hpush) fun hm => ?_)).imp_right fun hm =>
          ⟨hm.1, fun hc => (List.mem_cons.1 hc).elim hname hm.2⟩
        exact mem_extracted he hname hm

/-- An operation through which what waits goes on waiting. -/
def Keeps (now : Nat → Nat) (coName : String) (time : Nat) (v : View n) (r : Option Stop × View n) :
    Prop :=
  v.Sound now → v.Waits coName time → r.2.Sound now ∧ r.2.Waits coName time

theorem Keeps.trans {r : Option Stop × View n} (h : Keeps now coName time v (none, v'))
    (h' : Keeps now coName time v' r) : Keeps now coName time v r := fun hs hw =>
  h' (h hs hw).1 (h hs hw).2

theorem Keeps.tick (hmono : Monotone now) (v : View n) :
    Keeps now coName time v (none, v.tick) := fun hs hw => ⟨hs.tick hmono, hw⟩

theorem wakeSuspended_keeps (hmono : Monotone now) (count : Nat) (v : View n) :
    Keeps now coName time v (wakeSuspended now count v) := by
  refine wakeSuspended_loop (fun _ hs hw => ⟨hs, hw⟩) (fun v => Keeps.tick hmono v)
    (fun _ _ _ => Keeps.trans) ?_ count v
  intro v time' entry suspend hpop hdue h hw
  have helems := TimerList.elems_popFront hpop
  have hset : (v.tick.setSuspend suspend).Sound now :=
    ⟨(h.tick hmono).ready, fun e he => h.suspended e (helems ▸ List.mem_append_right _ he),
      h.syscall⟩
  have hadds := wakeEntry_adds hmono hset fun co hco => by
    have hm : (time', co) ∈ v.sched.suspend.elems :=
      helems ▸ List.mem_append_left _ (List.mem_map_of_mem hco)
    have hle : now v.readings ≤ now v.tick.readings := hmono (Nat.le_succ _)
    exact ⟨(h.suspended _ hm).1, time', (h.suspended _ hm).2, hdue.trans hle⟩
  refine ⟨hadds.sound, ?_⟩
  rcases hw with hr | ⟨co, hname, hm⟩ | hsyscall
  · have hr' : (v.tick.setSuspend suspend).Ready coName := hr
    exact .inl (hr'.pushed (wakeEntry_pushes now entry.inner _).choose_spec)
  · rw [helems, List.mem_append] at hm
    rcases hm with hm | hm
    · obtain ⟨co', hco', heq⟩ := List.mem_map.1 hm
      cases heq
      exact .inl (hname ▸ wakeEntry_ready hadds hco')
    · right
      rw [(wakeEntry_frame now entry.inner _).1]
      exact .inl ⟨co, hname, hm⟩
  · right
    rw [(wakeEntry_frame now entry.inner _).1]
    exact .inr hsyscall

theorem wakeTimedOut_keeps (hmono : Monotone now) (count : Nat) (v : View n) :
    Keeps now coName time v (wakeTimedOut now count v) := by
  refine wakeTimedOut_loop (fun _ hs hw => ⟨hs, hw⟩) (fun v => Keeps.tick hmono v)
    (fun _ _ _ => Keeps.trans) ?_ count v
  intro v time' entry syscallSuspend hpop hdue h hw
  have helems := TimerList.elems_popFront hpop
  have hset : (v.tick.setSyscallSuspend syscallSuspend).Sound now :=
    ⟨(h.tick hmono).ready, h.suspended, h.syscall⟩
  refine ⟨(timeoutEntry_adds (now v.readings) entry.inner hset).sound, ?_⟩
  have hframe := timeoutEntry_frame (now v.readings) entry.inner
    (v.tick.setSyscallSuspend syscallSuspend)
  rcases hw with hr | ⟨co, hname, hm⟩ | ⟨hsyscall, hm⟩
  · have hr' : (v.tick.setSyscallSuspend syscallSuspend).Ready coName := hr
    exact .inl (hr'.pushed (timeoutEntry_pushes _ entry.inner _).choose_spec)
  · refine .inr (.inl ⟨co, hname, ?_⟩)
    rw [hframe.1]
    exact hm
  · rcases timeoutEntry_waits entry.inner hset (.inr hsyscall) with hr | ⟨hsyscall', hnot⟩
    · exact .inl hr
    · refine .inr (.inr ⟨hsyscall', ?_⟩)
      rw [helems, List.mem_append] at hm
      rcases hm with hm | hm
      · obtain ⟨coName', hco', heq⟩ := List.mem_map.1 hm
        cases heq
        exact absurd hco' hnot
      · rw [hframe.2]
        exact hm

theorem checkReady_keeps (hmono : Monotone now) (v : View n) :
    Keeps now coName time v (v.checkReady now) :=
  checkReady_loops (fun _ _ _ => Keeps.trans) (wakeSuspended_keeps hmono)
    (wakeTimedOut_keeps hmono) v

/-- A look at the timers after its time makes it ready. -/
theorem Waits.woken (hmono : Monotone now) (hs : v.Sound now) (hw : v.Waits coName time)
    (hdue : time ≤ now v.readings) (h : v.checkReady now = (none, v')) : v'.Ready coName := by
  have hkeeps := (checkReady_keeps hmono v hs hw).2
  have hsleeps := checkReady_sleeps hmono h
  rw [h] at hkeeps
  exact hkeeps.resolve_right fun hd => Nat.not_lt.2 hdue (hsleeps.lt hd)

theorem tryResume_waits (h : v.Sound now) (coName' : String) (hw : v.Waits coName time) :
    (v.tryResume coName').2.Waits coName time := by
  obtain ⟨cos, hpush⟩ := v.tryResume_pushes coName'
  rcases hw with hr | hd
  · exact .inl (hr.pushed hpush)
  rw [tryResume]
  split
  · exact .inr hd
  · rename_i co syscall he
    obtain ⟨hsame, hst⟩ := h.extracted he
    cases hco : co.state with
    | systemCall y call state =>
      simp only [CoroutineImpl.syscall_of_systemCall hco]
      rcases hd with hsuspend | ⟨hsyscall, hm⟩
      · exact .inr (.inl hsuspend)
      · by_cases hname : coName = coName'
        · left
          rw [hname, ← hsame]
          exact ready_pushReady _ _
        · exact .inr (.inr ⟨mem_extracted he hname hsyscall, hm⟩)
    | created | ready | running | suspend _ _ | complete _ | error _ =>
      rw [hco] at hst
      cases hst

theorem place_waits (co : Co) (result : CoroutineState Unit Unit) (hw : v.Waits coName time) :
    (v.place now co result).2.Waits coName time := by
  obtain ⟨cos, hpush⟩ := v.place_pushes now co result
  rcases hw with hr | hd
  · exact .inl (hr.pushed hpush)
  right
  cases result with
  | suspend y timestamp =>
    rw [place]
    split
    · exact hd
    · rcases hd with ⟨co', hname, hm⟩ | hsyscall
      · exact .inl ⟨co', hname, TimerList.mem_elems_insert.2 (.inr hm)⟩
      · exact .inr hsyscall
  | systemCall y call state =>
    rcases hd with hsuspend | ⟨hsyscall, hm⟩
    · cases state with
      | suspend _ | computing | calling _ | timeout | finished => exact .inl hsuspend
    · have hinsert : coName ∈ v.sched.syscall.insert co.name co :=
        (AList.mem_insert _).2 (.inr hsyscall)
      cases state with
      | suspend timestamp => exact .inr ⟨hinsert, TimerList.mem_elems_insert.2 (.inr hm)⟩
      | computing | calling _ | timeout | finished => exact .inr ⟨hinsert, hm⟩
  | created | ready | running | complete _ | error _ => exact hd

end View

namespace World

variable {ι θ : Type*} {n : Nat} {now : Nat → Nat}

theorem Operates.waits (hmono : Monotone now) {s : World ι θ n} {i : ι} {a : Act ι θ} {v : View n}
    (h : (s.view i).Sound now) (hv : Operates now s i a v) {coName : String} {time : Nat}
    (hw : (s.view i).Waits coName time) : v.Waits coName time := by
  cases hv with
  | submit uuid =>
    obtain ⟨cos, hpush⟩ := View.submit_pushes now (s.view i) uuid
    exact hw.imp_left fun hr => hr.pushed hpush
  | tryResume coName' => exact View.tryResume_waits h coName' hw
  | checkReady hp => exact (View.checkReady_keeps hmono _ h hw).2
  | place hp => exact View.place_waits _ _ hw

end World

end OpenCoroutine
