import HardRT.CortexM.System
import HardRT.Posix.ReadySet
import HardRT.System.Twin
import HardRT.Lib.Lockstep

/-! # Tasks that follow a program, on either port

Without ticks and ISRs a system is deterministic once its tasks are: on POSIX the loop and the tasks
alternate, on Cortex-M a pending `PendSV` is taken at once and otherwise the current task goes on.

* `nextCall prog t log` — the call task `t` makes next when it follows `prog`.
* `Posix.turn`, `CortexM.turn` — one turn of each port, beside the record of the tasks made current.
* `Posix.launch`, `CortexM.launch` — `main` has created the tasks and started the scheduler;
  `launch_twin` says that the two kernels then agree.
* `pick_match` — picks from queues that agree up to repetitions return the same task. -/

namespace HardRT

open Lib

/-! ## Programs -/

/-- The event is a call entered by task `t`. -/
def Event.isCallOf (t : ℕ) : Event → Bool
  | .call u _ => u = t
  | _ => false

/-- The next call of task `t` when `prog t` is the sequence of its calls: the log holds those it has
made. -/
def nextCall (prog : ℕ → ℕ → Call) (t : ℕ) (log : List Event) : Call :=
  prog t (log.countP (Event.isCallOf t))

/-- The call the current task is about to make. -/
def Sys.nextCall (prog : ℕ → ℕ → Call) (s : Sys) : Call :=
  s.k.current.elim .yield fun t => HardRT.nextCall prog t s.log

/-- The calls are of the kind all the calls of the programs are. -/
theorem Sys.nextCall_plain {prog : ℕ → ℕ → Call} (hprog : ∀ t n, (prog t n).plain = true) (s : Sys) :
    (s.nextCall prog).plain = true := by
  unfold Sys.nextCall
  cases s.k.current with
  | none => rfl
  | some t => exact hprog _ _

/-- Task `cur` has been made current: the record of the tasks made current, consecutive repetitions
merged, and without the idle slot, which is not a task. -/
def noteCurrent (sz : Sizing) (cur : Option ℕ) (g : List ℕ) : List ℕ :=
  cur.elim g fun t => if t = sz.idleId ∨ g.getLast? = some t then g else g ++ [t]

/-- A task that is noted already. -/
theorem noteCurrent_of_last {sz : Sizing} {cur : Option ℕ} {g : List ℕ} (h : g.getLast? = cur) :
    noteCurrent sz cur g = g := by
  cases cur with
  | none => rfl
  | some t => exact if_pos (Or.inr h)

/-- The idle slot is not noted. -/
theorem noteCurrent_idle (sz : Sizing) (g : List ℕ) : noteCurrent sz (some sz.idleId) g = g :=
  if_pos (Or.inl rfl)

/-- Afterwards the task is noted. -/
theorem getLast?_noteCurrent {sz : Sizing} {t : ℕ} (ht : t ≠ sz.idleId) (g : List ℕ) :
    (noteCurrent sz (some t) g).getLast? = some t := by
  show (if t = sz.idleId ∨ g.getLast? = some t then g else g ++ [t]).getLast? = some t
  split_ifs with h
  · exact h.resolve_left ht
  · simp

/-- Noting only extends the record. -/
theorem prefix_noteCurrent (sz : Sizing) (cur : Option ℕ) (g : List ℕ) :
    g <+: noteCurrent sz cur g := by
  cases cur with
  | none => exact List.prefix_rfl
  | some t =>
      show g <+: if t = sz.idleId ∨ g.getLast? = some t then g else g ++ [t]
      split_ifs
      · exact List.prefix_rfl
      · exact List.prefix_append _ _

/-! ## Turns -/

namespace Posix

/-- What happens next on POSIX: the running task goes on, or else the loop. -/
def drive (prog : ℕ → ℕ → Call) (s : State) : Action :=
  if s.mode = .running then .task (s.sys.nextCall prog) else .loop

/-- One turn on POSIX, with the record of the tasks made current. -/
def turn (sz : Sizing) (prog : ℕ → ℕ → Call) : State × List ℕ → State × List ℕ :=
  advance (step sz) (drive prog) fun s => noteCurrent sz s.sys.k.current

/-- The scheduler has been started with these tasks. -/
def launch (sz : Sizing) (cfg : Option KernelConfig) (objs : ObjectSpecs) (mem : Kernel)
    (tasks : List TaskArgs) : State :=
  let s := tasks.foldl (fun s a => s.main sz .posix (.createTask a)) (Sys.boot sz .posix cfg objs mem)
  ⟨{ s with k := s.k.hrtPendContextSwitch }, .head⟩

end Posix

namespace CortexM

/-- What `PendSV_Handler` passes to `hrt__schedule` when `sp s` is the process stack pointer at an
exception in state `s`: the first switch passes 0. -/
def oldSp (sp : Sys → ℕ) (s : Sys) : ℕ := if s.k.current = none then 0 else sp s

/-- What happens next on Cortex-M: a pending `PendSV` is taken, or else the current task goes on. -/
def drive (prog : ℕ → ℕ → Call) (sp : Sys → ℕ) (s : Sys) : Action :=
  if s.k.pend then .pendsv (oldSp sp s) else .task (s.nextCall prog)

/-- One turn on Cortex-M, with the record of the tasks made current. -/
def turn (sz : Sizing) (idleStack : ℕ) (prog : ℕ → ℕ → Call) (sp : Sys → ℕ) :
    Sys × List ℕ → Sys × List ℕ :=
  advance (step sz idleStack) (drive prog sp) fun s => noteCurrent sz s.k.current

/-- The scheduler has been started with these tasks. -/
def launch (sz : Sizing) (idleStack : ℕ) (cfg : Option KernelConfig) (objs : ObjectSpecs)
    (mem : Kernel) (tasks : List TaskArgs) : Sys :=
  let s := tasks.foldl (fun s a => s.main sz (.cortexM idleStack) (.createTask a))
    (boot sz idleStack cfg objs mem)
  { s with k := s.k.hrtPendContextSwitch }

end CortexM

section Forward

variable {sz : Sizing} {prog : ℕ → ℕ → Call} {t : ℕ} {a : After} {o : Outcome} {g : List ℕ}

/-- A turn in which the running task takes an action of its own. -/
theorem Posix.turn_action (prog : ℕ → ℕ → Call) {p : Posix.State} (hm : p.mode = .running)
    (hcur : p.sys.k.current = some t)
    (hg : g.getLast? = some t)
    (ho : nextAction sz .posix t (nextCall prog t p.sys.log) p.sys.k (p.sys.conts t) = some o) :
    Posix.step sz p (.task (p.sys.nextCall prog)) = some ⟨p.sys.apply t o, .running⟩ ∧
      Posix.turn sz prog (p, g) = (⟨p.sys.apply t o, .running⟩, g) := by
  have hcall : p.sys.nextCall prog = nextCall prog t p.sys.log := by rw [Sys.nextCall, hcur]; rfl
  have hstep : Posix.step sz p (.task (p.sys.nextCall prog)) = some ⟨p.sys.apply t o, .running⟩ := by
    simp only [Posix.step, if_pos hm, hcur]
    split
    · rename_i x hx
      rw [hx] at ho
      exact absurd ho (by simp [nextAction])
    · rw [Sys.task, hcall, ho]
      rfl
  refine ⟨hstep, ?_⟩
  have hdrive : Posix.drive prog p = .task (p.sys.nextCall prog) := if_pos hm
  rw [Posix.turn, advance_of_step (hdrive ▸ hstep)]
  have hlast : g.getLast? = (p.sys.apply t o).k.current := by
    rw [hg, ← hcur]
    exact (taskEffect ho).current.symm
  exact congrArg _ (noteCurrent_of_last hlast)

/-- A turn in which the current task takes an action of its own. -/
theorem CortexM.turn_action {idleStack : ℕ} {sp : Sys → ℕ} {s : Sys} (hpend : s.k.pend = false)
    (hcur : s.k.current = some t) (hg : g.getLast? = some t)
    (ho : nextAction sz (.cortexM idleStack) t (nextCall prog t s.log) s.k (s.conts t) = some o) :
    CortexM.turn sz idleStack prog sp (s, g) = (s.apply t o, g) := by
  have hcall : s.nextCall prog = nextCall prog t s.log := by rw [Sys.nextCall, hcur]; rfl
  have hdrive : CortexM.drive prog sp s = .task (nextCall prog t s.log) := by
    rw [CortexM.drive, hpend, hcall]
    rfl
  have hstep : CortexM.step sz idleStack s (CortexM.drive prog sp s) = some (s.apply t o) := by
    simp only [hdrive, CortexM.step, hcur, hpend]
    split
    · rename_i h
      exact absurd h (by simp)
    · split
      · rename_i x hx
        rw [hx] at ho
        exact absurd ho (by simp [nextAction])
      · rw [Sys.task, ho]
        rfl
  rw [CortexM.turn, advance_of_step hstep]
  have hlast : g.getLast? = (s.apply t o).k.current := by
    rw [hg, ← hcur]
    exact (taskEffect ho).current.symm
  exact congrArg _ (noteCurrent_of_last hlast)

/-- A turn in which the current task makes its second request. -/
theorem CortexM.turn_hop {idleStack : ℕ} {sp : Sys → ℕ} {s : Sys} (hpend : s.k.pend = false)
    (hcur : s.k.current = some t) (hg : g.getLast? = some t) (ha : s.conts t = .hop a) :
    CortexM.turn sz idleStack prog sp (s, g) =
      ({ s.land t a with k := s.k.hrtPendContextSwitch }, g) := by
  have hdrive : CortexM.drive prog sp s = .task (s.nextCall prog) := by
    rw [CortexM.drive, hpend]
    rfl
  have hstep : CortexM.step sz idleStack s (CortexM.drive prog sp s) =
      some { s.land t a with k := s.k.hrtPendContextSwitch } := by
    simp only [hdrive, CortexM.step, hcur, hpend, ha]
    rfl
  rw [CortexM.turn, advance_of_step hstep]
  exact congrArg _ (noteCurrent_of_last (hg.trans hcur.symm))

/-- A turn in which `PendSV` is taken. -/
theorem CortexM.turn_pendsv {idleStack : ℕ} {sp : Sys → ℕ} {s : Sys} (hsp : ∀ s, sp s ≠ 0)
    (hpend : s.k.pend = true) :
    CortexM.turn sz idleStack prog sp (s, g) =
      ({ s with k := (hrtSchedule sz (CortexM.oldSp sp s) { s.k with pend := false }).2 },
        noteCurrent sz (hrtSchedule sz (CortexM.oldSp sp s) { s.k with pend := false }).2.current g) := by
  have hold : CortexM.oldSp sp s = 0 ↔ s.k.current = none := by
    unfold CortexM.oldSp
    split_ifs with hnone
    · exact iff_of_true rfl hnone
    · exact iff_of_false (hsp s) hnone
  have hdrive : CortexM.drive prog sp s = .pendsv (CortexM.oldSp sp s) := by
    rw [CortexM.drive, hpend]
    rfl
  have hstep : CortexM.step sz idleStack s (CortexM.drive prog sp s) =
      some { s with k := (hrtSchedule sz (CortexM.oldSp sp s) { s.k with pend := false }).2 } := by
    rw [hdrive]
    exact if_pos ⟨hpend, hold⟩
  rw [CortexM.turn, advance_of_step hstep]

/-- When nobody can go on, nothing changes any more. -/
theorem CortexM.iterate_turn_of_none {idleStack : ℕ} {sp : Sys → ℕ} {x : Sys × List ℕ} {n m : ℕ}
    (h : CortexM.step sz idleStack ((CortexM.turn sz idleStack prog sp)^[n] x).1
      (CortexM.drive prog sp ((CortexM.turn sz idleStack prog sp)^[n] x).1) = none) (hnm : n ≤ m) :
    (CortexM.turn sz idleStack prog sp)^[m] x = (CortexM.turn sz idleStack prog sp)^[n] x :=
  iterate_advance_of_none h hnm

/-- What is recorded on Cortex-M stays recorded. -/
theorem CortexM.prefix_turns {idleStack : ℕ} {sp : Sys → ℕ} (x : Sys × List ℕ) {n m : ℕ}
    (hnm : n ≤ m) : ((CortexM.turn sz idleStack prog sp)^[n] x).2 <+:
      ((CortexM.turn sz idleStack prog sp)^[m] x).2 := by
  have hgrow : ∀ y : Sys × List ℕ, y.2 <+: (CortexM.turn sz idleStack prog sp y).2 := by
    intro y
    rw [CortexM.turn, advance]
    cases CortexM.step sz idleStack y.1 (CortexM.drive prog sp y.1) with
    | none => exact List.prefix_rfl
    | some s' => exact prefix_noteCurrent sz _ _
  exact iterate_prefix hgrow x hnm

end Forward

/-! ## Launching -/

/-- **The systems in which `main` creates the tasks** agree: twin kernels with the same ready queues,
in which the first `n` slots may be in use. -/
structure TwinBoot (sz : Sizing) (n : ℕ) (s s' : Sys) : Prop where
  twin : Twin s.k s'.k
  rq : s'.k.rq = s.k.rq
  conts : s'.conts = s.conts
  log : s.log = [] ∧ s'.log = []
  user : ∀ id, s.conts id = .none ∨ s.conts id = .user
  current : s.k.current = none ∧ s'.k.current = none
  pend : s'.k.pend = false
  free : ∀ id, n ≤ id → s.k.stateOf id = .unused

section Launch

variable {sz : Sizing} {n : ℕ} {s s' : Sys}

/-- The scan for a free slot finds the same one. -/
theorem Twin.firstUnused {k k' : Kernel} (h : Twin k k') : firstUnused sz k' = firstUnused sz k := by
  unfold HardRT.firstUnused
  simp only [h.stateOf]

/-- **A creation on both.** -/
theorem TwinBoot.create (h : TwinBoot sz n s s') (port port' : Port) (a : TaskArgs) :
    TwinBoot sz (n + 1) (s.main sz port (.createTask a)) (s'.main sz port' (.createTask a)) := by
  have hfree : ∀ id, n + 1 ≤ id → s.k.stateOf id = .unused := fun id hid => h.free id (by omega)
  simp only [Sys.main, hrtCreateTask]
  rw [h.twin.firstUnused]
  split
  · exact ⟨h.twin.hrtError _, h.rq, h.conts, h.log, h.user, h.current, h.pend, hfree⟩
  · split
    · exact ⟨h.twin.hrtError _, h.rq, h.conts, h.log, h.user, h.current, h.pend, hfree⟩
    · rename_i id hid
      -- the first free slot is among the first `n + 1`
      have hle : id ≤ n := by
        by_contra hlt
        have hn := List.find?_range_eq_some.mp hid
        exact absurd (h.free n le_rfl) (by simpa using hn.2.2 n (by omega))
      obtain ⟨sp, e, heq⟩ := fillSlot_spec sz port a id s.k
      obtain ⟨sp', e', heq'⟩ := fillSlot_spec sz port' a id s'.k
      simp only
      rw [heq, heq']
      have htwin : Twin
          { s.k with tcbs := Function.update s.k.tcbs id (a.readyTcb s.k sp), error := e }
          { s'.k with tcbs := Function.update s'.k.tcbs id (a.readyTcb s'.k sp'), error := e' } := by
        refine ⟨fun j => ?_, h.twin.sems, h.twin.mutexes, h.twin.queues, h.twin.slice⟩
        by_cases hj : j = id
        · subst hj
          refine ⟨sp', ?_⟩
          simp only [Function.update_self, TaskArgs.readyTcb, TaskArgs.tcb, TaskArgs.slice, h.twin.slice]
        · simpa [hj] using h.twin.tcbs j
      refine ⟨?_, ?_, ?_, h.log, fun j => ?_, ?_, ?_, fun j hj => ?_⟩
      · exact (htwin.push_left _ id).push_right _ id
      · exact rqPush_rq_congr (by exact h.rq) _ _
      · simp only [Sys.spawned, h.conts]
      · rcases s.spawned_cases (some id) j with hsame | ⟨-, hnew⟩
        · simp only [hsame]
          exact h.user j
        · exact Or.inr hnew
      · simpa using h.current
      · simpa using h.pend
      · have hne : j ≠ id := by omega
        simpa [Kernel.stateOf, hne] using h.free j (by omega)

/-- **All creations.** -/
theorem TwinBoot.createAll (port port' : Port) (tasks : List TaskArgs) :
    ∀ {n : ℕ} {s s' : Sys}, TwinBoot sz n s s' → TwinBoot sz (n + tasks.length)
      (tasks.foldl (fun s a => s.main sz port (.createTask a)) s)
      (tasks.foldl (fun s a => s.main sz port' (.createTask a)) s') := by
  induction tasks with
  | nil => exact fun h => h
  | cons a tasks ih =>
      intro n s s' h
      have hlen : n + (a :: tasks).length = n + 1 + tasks.length := by
        rw [List.length_cons]
        omega
      rw [hlen]
      exact ih (h.create port port' a)

/-- After boot. -/
theorem TwinBoot.boot (sz : Sizing) (idleStack : ℕ) (cfg : Option KernelConfig) (objs : ObjectSpecs)
    (mem : Kernel) :
    TwinBoot sz 0 (Sys.boot sz .posix cfg objs mem) (Sys.boot sz (.cortexM idleStack) cfg objs mem) := by
  have hinit : ∀ k, hrtInit sz (.cortexM idleStack) cfg k =
      setSp sz.idleId (idleStack + 4 * 64 - 64) (hrtInit sz .posix cfg k) := fun k => by
    cases cfg <;> rfl
  have hP := hrtInit_frame sz { mem with error := .none, pend := false } .posix cfg
  have hC := hrtInit_frame sz { mem with error := .none, pend := false } (.cortexM idleStack) cfg
  refine ⟨⟨fun id => ?_, rfl, rfl, rfl, ?_⟩, hC.1.trans hP.1.symm, rfl, ⟨rfl, rfl⟩, fun _ => Or.inl rfl,
    ⟨hP.2.1, hC.2.1⟩, hC.2.2, fun id _ => stateOf_hrtInit sz _ .posix cfg id⟩
  · simp only [Sys.boot, hinit, setSp_tcbs]
    by_cases hid : id = sz.idleId
    · subst hid
      exact ⟨_, by rw [Function.update_self]⟩
    · exact ⟨_, by rw [Function.update_of_ne hid]⟩
  · simp only [Sys.boot, hinit]
    unfold setSp
    split <;> rfl

/-- The calls of `main` that create the tasks, as a run on POSIX. -/
theorem Posix.exec_creates (tasks : List TaskArgs) : ∀ s : Sys,
    exec (Posix.step sz) ⟨s, .boot⟩ (tasks.map fun a => .main (.createTask a)) =
      some ⟨tasks.foldl (fun s a => s.main sz .posix (.createTask a)) s, .boot⟩ := by
  induction tasks with
  | nil => exact fun s => rfl
  | cons a tasks ih => exact fun s => exec_cons.mpr ⟨_, rfl, ih _⟩

/-- **The launched system on POSIX** is where the calls of `main` lead. -/
theorem Posix.exec_launch (sz : Sizing) (cfg : Option KernelConfig) (objs : ObjectSpecs) (mem : Kernel)
    (tasks : List TaskArgs) :
    exec (Posix.step sz) (Posix.boot sz cfg objs mem)
      ((tasks.map fun a => .main (.createTask a)) ++ [.start]) =
      some (Posix.launch sz cfg objs mem tasks) :=
  exec_concat.mpr ⟨_, Posix.exec_creates tasks _, rfl⟩

/-- The calls of `main` that create the tasks, as a run on Cortex-M. -/
theorem CortexM.exec_creates {idleStack : ℕ} (tasks : List TaskArgs) : ∀ s : Sys,
    s.k.current = none → s.k.pend = false →
    exec (CortexM.step sz idleStack) s (tasks.map fun a => .main (.createTask a)) =
      some (tasks.foldl (fun s a => s.main sz (.cortexM idleStack) (.createTask a)) s) ∧
    (tasks.foldl (fun s a => s.main sz (.cortexM idleStack) (.createTask a)) s).k.current = none := by
  induction tasks with
  | nil => exact fun s hcur _ => ⟨rfl, hcur⟩
  | cons a tasks ih =>
      intro s hcur hpend
      have hframe := hrtCreateTask_frame sz (.cortexM idleStack) a s.k
      obtain ⟨hrun, hlast⟩ := ih (s.main sz (.cortexM idleStack) (.createTask a))
        (hframe.1.trans hcur) (hframe.2.2.trans hpend)
      exact ⟨exec_cons.mpr ⟨_, if_pos ⟨hcur, hpend⟩, hrun⟩, hlast⟩

/-- **The launched system on Cortex-M** is where the calls of `main` lead. -/
theorem CortexM.exec_launch (sz : Sizing) (idleStack : ℕ) (cfg : Option KernelConfig)
    (objs : ObjectSpecs) (mem : Kernel) (tasks : List TaskArgs) :
    exec (CortexM.step sz idleStack) (CortexM.boot sz idleStack cfg objs mem)
      ((tasks.map fun a => .main (.createTask a)) ++ [.start]) =
      some (CortexM.launch sz idleStack cfg objs mem tasks) := by
  have hboot := TwinBoot.boot sz idleStack cfg objs mem
  obtain ⟨hrun, hcur⟩ := CortexM.exec_creates tasks _ hboot.current.2 hboot.pend
  exact exec_concat.mpr ⟨_, hrun, if_pos hcur⟩

end Launch

/-! ## Invariants of POSIX runs -/

namespace Posix

/-- The invariants of clean runs: the ready set, the blocked partition and the ids in circulation. -/
structure Steady (sz : Sizing) (s : State) : Prop where
  ready : ReadyInv sz s
  part : PartInv sz s.sys
  ids : IdsInv sz s

section Steady

variable {sz : Sizing} {s s' : State}

/-- **Every clean step keeps them.** -/
theorem Steady.step (h : Steady sz s) (hr : sz.Representable) {a : Action}
    (hclean : ReadyClean sz s a) (hstep : Posix.step sz s a = some s') : Steady sz s' :=
  ⟨h.ready.step hr h.part hclean hstep, step_partInv hr h.ready.runsLive h.part hstep,
    h.ids.step hr hstep⟩

/-- The creations of `main`, as long as slots below the idle one are free. -/
theorem Steady.createAll (hr : sz.Representable) (tasks : List TaskArgs) :
    ∀ {n : ℕ} {s s' : Sys}, TwinBoot sz n s s' → Steady sz ⟨s, .boot⟩ →
      (∀ a ∈ tasks, a.prio < sz.maxPrio) → n + tasks.length ≤ sz.idleId →
      Steady sz ⟨tasks.foldl (fun s a => s.main sz .posix (.createTask a)) s, .boot⟩ := by
  induction tasks with
  | nil => exact fun _ h _ _ => h
  | cons a tasks ih =>
      intro n s s' hboot h hprio hlen
      rw [List.length_cons] at hlen
      have hroom : RoomBelowIdle sz s.k a := fun _ => ⟨n, by omega, hboot.free n le_rfl⟩
      have hnext : Steady sz ⟨s.main sz .posix (.createTask a), .boot⟩ :=
        h.step hr (a := .main (.createTask a)) ⟨hroom.sparesIdle, fun _ => hprio a List.mem_cons_self⟩ rfl
      exact ih (hboot.create .posix .posix a) hnext
        (fun b hb => hprio b (List.mem_cons_of_mem _ hb)) (by omega)

end Steady

end Posix

/-! ## Picks from queues that agree up to repetitions -/

/-- The ready queues of the second kernel are those of the first with entries repeated in place. -/
def QueuesStutter (sz : Sizing) (k k' : Kernel) : Prop :=
  ∀ p < sz.maxPrio, Stutters (k.readyList sz p) (k'.readyList sz p)

/-- **Picks from queues that agree up to repetitions**: both find all queues empty, or both return the
same task; the second kernel may then hold copies of it in front. -/
theorem pick_match {sz : Sizing} {k k' : Kernel} (hr : sz.Representable) (hwf : ReadyWF sz k)
    (hwf' : ReadyWF sz k') (hm : QueuesStutter sz k k') :
    (hrtPickNextReady sz k = (sz.idleId, k) ∧ hrtPickNextReady sz k' = (sz.idleId, k')) ∨
    ∃ p d, p < sz.maxPrio ∧ d ∈ k.readyList sz p ∧
      (hrtPickNextReady sz k).1 = d ∧ (hrtPickNextReady sz k').1 = d ∧
      ReadyWF sz (hrtPickNextReady sz k').2 ∧
      (∀ q < p, (hrtPickNextReady sz k').2.readyList sz q = []) ∧
      (∀ q < sz.maxPrio, q ≠ p → Stutters ((hrtPickNextReady sz k).2.readyList sz q)
        ((hrtPickNextReady sz k').2.readyList sz q)) ∧
      Leads d ((hrtPickNextReady sz k).2.readyList sz p)
        ((hrtPickNextReady sz k').2.readyList sz p) := by
  rcases pickNextReady_spec hr hwf with ⟨hempty, heq⟩ | ⟨p, d, rest, hp, hpre, hl, heq⟩
  · left
    refine ⟨heq, ?_⟩
    rcases pickNextReady_spec hr hwf' with ⟨-, heq'⟩ | ⟨q, d', rest', hq, -, hl', -⟩
    · exact heq'
    · rw [(hm q hq).eq_nil_iff.mpr (hempty q hq)] at hl'
      exact absurd hl' (by simp)
  · right
    have hmp := hm p hp
    rw [hl] at hmp
    obtain ⟨rest', hl', hleads⟩ := hmp.tail
    have hpre' : ∀ q < p, k'.readyList sz q = [] := fun q hq =>
      (hm q (by omega)).eq_nil_iff.mpr (hpre q hq)
    have heq' := pickNextReady_of_head hr hwf' hp hpre' hl'
    have hlist := readyList_dropReady (hwf p hp) hr hl
    have hlist' := readyList_dropReady (hwf' p hp) hr hl'
    rw [heq, heq']
    refine ⟨p, d, hp, by rw [hl]; exact List.mem_cons_self, rfl, rfl, hwf'.dropReady hr hl',
      fun q hq => ?_, fun q hq hqp => ?_, ?_⟩
    · rw [hlist', if_neg (by omega)]
      exact hpre' q hq
    · rw [hlist, hlist', if_neg hqp, if_neg hqp]
      exact hm q hq
    · rw [hlist, hlist', if_pos rfl, if_pos rfl]
      exact hleads

end HardRT
