import DemandPaging.Machine.Advance
import DemandPaging.Proofs.Machine.Steps
/-!
A moving clock keeps the invariant. Between the moments when the waiters of a tick leave the queue
and when they have been served, those still to be served count as waiting.
-/

namespace DemandPaging

namespace View

variable {g : Geometry} {v v' : View g} {pid : ProcessId} {due : List Waiter}

/-- The view with the waiters that have left the queue and are still to be served. -/
def awaiting (v : View g) (due : List Waiter) : View g :=
  { v with waiting := fun pid => v.waiting pid + due.count (.process pid) }

theorem awaiting_cpu (v : View g) (c : Nat) (due : List Waiter) :
    v.awaiting (.cpu c :: due) = v.awaiting due := by
  simp [awaiting]

theorem Elsewhere.served {cs : Nat → Prop} (he : Elsewhere pid cs v v') :
    Elsewhere pid cs (v.awaiting (.process pid :: due)) (v'.awaiting due) := by
  refine { he with waiting := fun q hq => ?_ }
  have hne : Waiter.process pid ≠ .process q := fun h => hq (Waiter.process.inj h).symm
  change v'.waiting q + due.count (.process q) =
    v.waiting q + (Waiter.process pid :: due).count (.process q)
  rw [he.waiting q hq, List.count_cons_of_ne hne]

theorem waiting_awaiting_ne_zero (v : View g) (pid : ProcessId) (due : List Waiter) :
    (v.awaiting (.process pid :: due)).waiting pid ≠ 0 := by
  change v.waiting pid + (Waiter.process pid :: due).count (.process pid) ≠ 0
  rw [List.count_cons_self]
  omega

theorem TaskInv.waiting_served {h : History} {t : Task}
    (hi : (v.awaiting (.process pid :: due)).TaskInv h pid t)
    (hw : v'.waiting pid = v.waiting pid) : (v'.awaiting due).waiting pid = 0 := by
  have hone := (hi.waits (waiting_awaiting_ne_zero v pid due)).1
  change v.waiting pid + (Waiter.process pid :: due).count (.process pid) = 1 at hone
  change v'.waiting pid + due.count (.process pid) = 0
  rw [List.count_cons_self] at hone
  omega

end View

namespace Machine

open DemandPaging.Action

variable {g : Geometry} {S : Type} {m : Machine g S} {v : View g} {h : History}
  {specs : List ProcessSpec} {pid : ProcessId} {due : List Waiter}

/-- The machine keeps the invariant while these waiters are still to be served. -/
structure Awaits (m : Machine g S) (specs : List ProcessSpec) (h : History)
    (due : List Waiter) : Prop where
  sound : m.pager.Sound
  inv : (m.view.awaiting due).Inv specs h

theorem Shows.awaits (hm : m.Shows v) (hi : (v.awaiting due).Inv specs h) :
    m.Awaits specs h due := ⟨hm.sound, hm.view ▸ hi⟩

theorem quietly_createSpace (hm : m.Shows v) (hno : v.memories pid = none) :
    Quietly (modify fun m => { m with pager := m.pager.createSpace pid }) m fun _ m' =>
      m'.Shows { v with memories := Function.update v.memories pid (some .empty) } := by
  refine (quietly_modify _).mono ?_
  rintro _ _ rfl
  have hs : m.pager.space? pid = none := by
    rw [← hm.view] at hno
    have hflat : m.pager.flat pid = none := hno
    rw [Pager.flat_eq] at hflat
    simpa using hflat
  refine ⟨Pager.sound_createSpace hm.sound hs, ?_⟩
  rw [← hm.view, view_pager, Pager.flat_createSpace hs]
  rfl

theorem quietly_allocate (hm : m.Shows v) {mem : FlatMemory g}
    (hmem : v.memories pid = some mem) (start count : Nat) :
    Quietly (onPager (Pager.allocate pid start count)) m fun r m' => m'.Shows
      { v with memories :=
        if r then Function.update v.memories pid (some (mem.allocate start count))
        else v.memories } := by
  refine quietly_onPager ?_
  obtain ⟨r, p, es, hrun, hp, hs, htrans, ha⟩ := Pager.run_allocate hm.sound pid start count
  obtain ⟨-, hflat⟩ := Pager.flat_of_allocateAnswer hs ha
  cases r with
  | error r => exact meets_of_run_error hrun trivial
  | ok r =>
    refine meets_of_run_ok hrun ⟨hp, ?_⟩
    rw [hm.memories hmem] at hflat
    rw [← hm.view, view_pager, htrans, hflat]
    cases r <;> rfl

theorem quietly_refuse (hm : m.Shows v) (pid : ProcessId) (textPages : Nat) :
    Quietly (refuse pid textPages) m fun _ m' => m'.Shows
      { v.setStatus pid .exited with memories := Function.update v.memories pid none } := by
  refine quietly_time_bind fun now => ?_
  refine (quietly_process pid).bind ?_
  rintro p m₁ ⟨-, rfl⟩
  refine quietly_report_bind rfl ?_
  refine (quietly_setStatus hm pid .exited).bind ?_
  intro _ m₂ hm₂
  refine (quietly_changeAccount hm₂ pid (f := fun a => { a with completedAt := some now })
    fun _ => rfl).bind ?_
  intro _ m₃ hm₃
  refine (quietly_release hm₃ pid).bind ?_
  intro _ m₄ hm₄
  refine (quietly_modify _).mono ?_
  rintro _ _ rfl
  exact hm₄.of_eq rfl rfl

theorem awaits_of_pop? (hm : m.Stands specs h) {tick : Nat} {rest : EventQueue Waiter}
    (hpop : m.queue.pop? = some ((tick, due), rest)) (clock : VirtualClock) :
    ({ m with queue := rest, clock } : Machine g S).Awaits specs h due := by
  have hw : (fun pid => rest.count (.process pid) + due.count (Waiter.process pid)) =
      m.view.waiting := by
    funext pid
    rw [Nat.add_comm]
    exact (EventQueue.count_of_pop? hpop _).symm
  have hv : ({ m with queue := rest, clock } : Machine g S).view.awaiting due = m.view := by
    calc _ = { m.view with
          waiting := fun pid => rest.count (.process pid) + due.count (Waiter.process pid) } := rfl
      _ = _ := by rw [hw]
  refine ⟨hm.sound, ?_⟩
  rw [hv]
  exact hm.inv

variable [Scheduler S]

theorem quietly_start (hm : m.Awaits specs h (.process pid :: due)) {p : Process}
    (hp : m.processes[pid]? = some p) (hnot : p.isStarted = false) :
    Quietly (start pid) m fun _ m' => m'.Awaits specs h due := by
  have hshows : m.Shows m.view := ⟨hm.sound, rfl⟩
  have ht : (m.view.awaiting (.process pid :: due)).tasks pid = some p.task := hshows.task hp
  have hinv := hm.inv.task pid p.task ht
  have hwait := View.waiting_awaiting_ne_zero m.view pid due
  obtain ⟨-, hno, -⟩ := hinv.unstarted hnot
  refine quietly_time_bind fun now => ?_
  refine (quietly_createSpace hshows hno).bind ?_
  intro _ m₂ hm₂
  refine (quietly_task hm₂ ht).bind ?_
  rintro q m₂ ⟨htask, rfl⟩
  have htrace : q.trace = p.trace := congrArg Task.trace htask
  rw [htrace]
  refine (quietly_allocate hm₂ (Function.update_self ..) 0 _).bind ?_
  rintro (_ | _) m₃ hm₃
  · rw [if_neg nofun]
    refine (quietly_refuse hm₃ pid _).mono fun _ m' hm' => hm'.awaits ?_
    have helse : View.Elsewhere pid (fun _ => False) m.view _ :=
      ((View.Elsewhere.memory m.view pid (some .empty)).trans
        (.changeTask _ pid fun t => { t with status := .exited })).trans (.memory _ pid none)
    refine hm.inv.refused ht hwait hnot helse.served ?_ (hinv.waiting_served rfl)
      (Function.update_self ..) rfl
    simp [View.awaiting, View.setStatus, View.changeTask, hshows.task hp]
  · rw [if_pos rfl]
    refine (quietly_changeProcess hm₃ pid (fun t => { t with
      textPages := p.trace.textPages g, dataBase := p.trace.dataBase g, saved := {}
      status := .ready, started := true }) fun _ => rfl).bind ?_
    intro _ m₄ hm₄
    refine quietly_report_bind rfl ?_
    refine (quietly_policy hm₄ _).mono fun _ m' hm' => hm'.awaits ?_
    have helse : View.Elsewhere pid (fun _ => False) m.view _ :=
      ((View.Elsewhere.memory m.view pid (some .empty)).trans
        (.memory _ pid (some (FlatMemory.empty.allocate 0 (p.trace.textPages g))))).trans
        (.changeTask _ pid fun t => { t with
          textPages := p.trace.textPages g, dataBase := p.trace.dataBase g, saved := {}
          status := .ready, started := true })
    refine hm.inv.started ht hwait hnot helse.served ?_ (hinv.waiting_served rfl)
      (Function.update_self ..) rfl
    simp [View.awaiting, View.changeTask, hshows.task hp, Process.task]

theorem quietly_wake (hm : m.Awaits specs h (.process pid :: due)) :
    Quietly (wake pid) m fun _ m' => m'.Awaits specs h due := by
  have hshows : m.Shows m.view := ⟨hm.sound, rfl⟩
  refine (quietly_process pid).bind ?_
  rintro p m₁ ⟨hp, rfl⟩
  have ht : (m₁.view.awaiting (.process pid :: due)).tasks pid = some p.task := hshows.task hp
  split
  · next hstarted =>
    refine quietly_time_bind fun now => ?_
    refine quietly_report_bind rfl ?_
    refine (quietly_setStatus hshows pid .ready).bind ?_
    intro _ m₃ hm₃
    refine (quietly_policy hm₃ _).mono fun _ m' hm' => hm'.awaits ?_
    refine hm.inv.woken ht (View.waiting_awaiting_ne_zero _ pid due) hstarted
      (View.Elsewhere.served (.changeTask _ pid _)) ?_
      ((hm.inv.task pid _ ht).waiting_served rfl) rfl rfl
    simp [View.awaiting, View.setStatus, View.changeTask, hshows.task hp]
  · next hnot => exact quietly_start hm hp (by simpa using hnot)

theorem quietly_each_wakeWaiter (hm : m.Awaits specs h due) :
    Quietly (each wakeWaiter due) m fun _ m' => m'.Awaits specs h [] := by
  induction due generalizing m with
  | nil => exact quietly_pure hm
  | cons w due ih =>
    have hfirst : Quietly (wakeWaiter w) m fun _ m' => m'.Awaits specs h due := by
      cases w with
      | cpu c => exact quietly_pure ⟨hm.sound, m.view.awaiting_cpu c due ▸ hm.inv⟩
      | process pid => exact quietly_wake hm
    exact hfirst.bind fun _ _ hm' => ih hm'

theorem quietly_advance (hm : m.Stands specs h) :
    Quietly advance m fun _ m' => m'.Stands specs h := by
  refine quietly_get.bind ?_
  rintro _ m₁ ⟨rfl, rfl⟩
  split
  · refine (quietly_modify _).mono ?_
    rintro _ _ rfl
    exact ⟨hm.sound, hm.inv.finished⟩
  · refine quietly_time_bind fun now => ?_
    refine (quietly_ofOption (by nofun)).bind ?_
    rintro ⟨⟨tick, due⟩, rest⟩ m₂ ⟨hpop, rfl⟩
    refine (quietly_modify _).bind ?_
    rintro _ _ rfl
    refine (quietly_ofOption (by nofun)).bind ?_
    rintro clock _ ⟨-, rfl⟩
    refine (quietly_modify _).bind ?_
    rintro _ _ rfl
    refine (quietly_each_wakeWaiter (awaits_of_pop? hm hpop clock)).bind ?_
    intro _ m₄ hm₄
    refine (quietly_modify _).mono ?_
    rintro _ _ rfl
    exact ⟨hm₄.sound, hm₄.inv⟩

end Machine

end DemandPaging
