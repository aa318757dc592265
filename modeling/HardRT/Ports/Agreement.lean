import HardRT.Ports.TaskPrograms

/-! # The two schedulers side by side

The POSIX loop and the Cortex-M `PendSV` handler run the same core with different requeue disciplines.
On POSIX the API call queues the caller and one swap ends the call. On Cortex-M the call queues the
caller, `hrt__schedule` queues it again, and each call requests two switches, the second of which is
taken when the task runs again.

* `late_switch_rotates` — so the ports make tasks current in different orders: the second switch rotates
  a resumed task behind its peers.
* `AgreeClean` — the ready queues have room, and every switch finds the outgoing task's queue in a state
  in which the extra entries and the extra switch are harmless.
* `schedulers_agree` — along such switches both ports make the same tasks current in the same order,
  whatever the programs of the tasks.

The proof runs the two machines in lockstep (`Lib.lockstep`). `Synced` relates them while a task runs:
the Cortex-M queues are the POSIX ones with entries repeated in place, and copies of the running task in
front of its own queue. `Switching` relates them just before both pick. -/

namespace HardRT

open Lib

/-! ## The side condition -/

/-- **A harmless switch** away from task `t`. If `t` is ready, it is alone in its ready queue, or it is
giving up the CPU and is not next in its queue. If `t` is not ready, it has at most one entry, and then
that entry is next. -/
def SwitchClean (sz : Sizing) (s : Sys) (t : ℕ) : Prop :=
  (s.k.stateOf t = .ready →
    (∀ id ∈ s.k.readyList sz (s.k.tcbs t).prio, id = t) ∨
      ((s.conts t).leaving = true ∧ (s.k.readyList sz (s.k.tcbs t).prio).head? ≠ some t)) ∧
  (s.k.stateOf t ≠ .ready →
    (s.k.readyList sz (s.k.tcbs t).prio).count t ≤ 1 ∧
      (t ∈ s.k.readyList sz (s.k.tcbs t).prio → ∀ q < (s.k.tcbs t).prio, s.k.readyList sz q = []))

instance (sz : Sizing) (s : Sys) (t : ℕ) : Decidable (SwitchClean sz s t) :=
  inferInstanceAs (Decidable (_ ∧ _))

/-- **The clean states** of Cortex-M: every ready queue has room for another entry, and a pending switch
is harmless. -/
def AgreeClean (sz : Sizing) (s : Sys) : Prop :=
  (∀ p < sz.maxPrio, (s.k.rq p).count < sz.maxTasks) ∧
    (s.k.pend = true → ∀ t ∈ s.k.current, SwitchClean sz s t)

instance (sz : Sizing) (s : Sys) : Decidable (AgreeClean sz s) :=
  inferInstanceAs (Decidable (_ ∧ _))

/-! ## The relation -/

/-- The second continuation is the first, or has still to make the second request of a call that the
first has already left. -/
def Behind (c c' : Cont) : Prop := c' = c ∨ ∃ a, c = .resumed a ∧ c' = .hop a

/-- **The two systems side by side**; `g` is the record of the tasks made current. -/
structure Paired (sz : Sizing) (p : Posix.State) (s : Sys) (g : List ℕ) : Prop where
  steady : Posix.Steady sz p
  twin : Twin p.sys.k s.k
  log : s.log = p.sys.log
  conts : ∀ u, Behind (p.sys.conts u) (s.conts u)
  wf : ReadyWF sz s.k
  last : g.getLast? = p.sys.k.current

/-- **Task `c` runs on both**: its copies may be in front of its own queue, and apart from them the
queues agree up to repetitions. A task that has yielded is at the end of its queue. -/
structure Synced (sz : Sizing) (p : Posix.State) (s : Sys) (g : List ℕ) (c : ℕ) : Prop
    extends Paired sz p s g where
  mode : p.mode = .running
  cur : p.sys.k.current = some c
  cur' : s.k.current = some c
  pend' : s.k.pend = false
  cont : s.conts c = p.sys.conts c
  inside : ∀ a, p.sys.conts c ≠ .hop a
  prio : (p.sys.k.tcbs c).prio < sz.maxPrio
  others : ∀ q < sz.maxPrio, q ≠ (p.sys.k.tcbs c).prio →
    Stutters (p.sys.k.readyList sz q) (s.k.readyList sz q)
  own : Leads c (p.sys.k.readyList sz (p.sys.k.tcbs c).prio) (s.k.readyList sz (p.sys.k.tcbs c).prio)
  yielded : (p.sys.conts c).leaving = true → p.sys.k.stateOf c = .ready →
    ∃ l, p.sys.k.readyList sz (p.sys.k.tcbs c).prio = l ++ [c]

/-- The kernel on which `hrt__schedule` makes its pick. -/
def toPick (sz : Sizing) (sp : Sys → ℕ) (s : Sys) : Kernel :=
  saveOutgoing sz (CortexM.oldSp sp s) { s.k with pend := false }

/-- **Both are about to pick**, from queues that agree up to repetitions. -/
structure Switching (sz : Sizing) (sp : Sys → ℕ) (p : Posix.State) (s : Sys) (g : List ℕ) : Prop
    extends Paired sz p s g where
  mode : p.mode = .head
  pend : p.sys.k.pend = true
  pend' : s.k.pend = true
  wfPick : ReadyWF sz (toPick sz sp s)
  queues : QueuesStutter sz p.sys.k (toPick sz sp s)

/-- **Nobody is left to run**: the loop waits, and the idle task is current on Cortex-M. -/
structure Stopped (sz : Sizing) (p : Posix.State) (s : Sys) (g : List ℕ) : Prop where
  mode : p.mode = .head
  pend : p.sys.k.pend = false
  last : g.getLast? = p.sys.k.current
  cur' : s.k.current = some sz.idleId
  pend' : s.k.pend = false
  cont : s.conts sz.idleId = .none

section Steps

variable {sz : Sizing} {idleStack : ℕ} {prog : ℕ → ℕ → Call} {sp : Sys → ℕ} {p : Posix.State} {s : Sys}
  {g : List ℕ} {c : ℕ}

/-! ## An action of the running task -/

/-- A plain call creates nobody. -/
theorem Call.creates_of_plain {call : Call} (h : call.plain = true) : call.creates = none := by
  cases call <;> first | rfl | exact absurd h (by simp [Call.plain])

/-- Every step of tasks that make plain calls is clean. -/
theorem Posix.readyClean_of_plain {call : Call} (h : call.plain = true) :
    Posix.ReadyClean sz p (.task call) := by
  intro t _ _ a ha
  rw [Call.creates_of_plain h] at ha
  exact absurd ha (by simp)

/-- What an action appends, if the queue of the task it readies has room. -/
theorem TaskEffect.appends {port : Port} {t : ℕ} {k : Kernel} {call : Call} {x : Cont} {o : Outcome}
    (h : TaskEffect sz port t k call x o) (hr : sz.Representable) (hpart : BlockedPartition sz k)
    (hwf : ReadyWF sz k) (hcall : call.creates = none)
    (hacc : ∀ id, Readies t k o id → id < sz.maxTasks ∧ RqAccepts sz k (k.tcbs id).prio) :
    ∃ w : Option ℕ, Appends sz k o.k (w.elim [] fun id => [((k.tcbs id).prio, id)]) ∧
      ∀ id, w = some id ↔ Readies t k o id := by
  obtain ⟨w, hrq, hw⟩ := h.readied hr hpart hcall
  refine ⟨w, ?_, hw⟩
  cases w with
  | none => exact .of_rq hwf hrq
  | some id =>
      obtain ⟨hlt, hroom⟩ := hacc id ((hw id).mp rfl)
      exact (Appends.push hwf hr hlt hroom).congr hrq

/-- The running task is ready as long as it has not given up the CPU. -/
theorem Synced.ready (h : Synced sz p s g c) (hl : (p.sys.conts c).leaving = false) :
    p.sys.k.stateOf c = .ready :=
  h.steady.ready.ready c ⟨h.mode, h.cur, hl⟩

/-- An action of the running task is enabled. -/
theorem Synced.exists_action (h : Synced sz p s g c) (call : Call) :
    ∃ o, nextAction sz .posix c call p.sys.k (p.sys.conts c) = some o := by
  have hcode := h.steady.ids.cur c h.cur
  have hin := h.inside
  cases hx : p.sys.conts c with
  | none => exact absurd hx hcode
  | hop a => exact absurd hx (hin a)
  | _ => exact ⟨_, rfl⟩

/-- **What an action of the running task appends** is the same on both: on POSIX the books leave room for
whom it readies. -/
theorem Synced.appends (h : Synced sz p s g c) (hr : sz.Representable) {port' : Port} {call : Call}
    (hplain : call.plain = true) (hclean : AgreeClean sz s) (hl : (p.sys.conts c).leaving = false)
    {o o' : Outcome} (heff : TaskEffect sz .posix c p.sys.k call (p.sys.conts c) o)
    (heff' : TaskEffect sz port' c s.k call (s.conts c) o') (htw : TwinOutcome o o') :
    ∃ e, Appends sz p.sys.k o.k e ∧ Appends sz s.k o'.k e ∧
      (o.k.stateOf c = .ready → (∃ a, o.cont = .pend a) → e = [((p.sys.k.tcbs c).prio, c)]) := by
  have hready := h.ready hl
  have hbooks := h.steady.ready.books
  have hcreates := Call.creates_of_plain hplain
  -- whom an action readies is the same on both
  have hsame : ∀ id, Readies c s.k o' id ↔ Readies c p.sys.k o id := fun id => by
    rw [Readies, Readies, htw.k.stateOf, h.twin.stateOf, htw.cont]
  have hused : ∀ id, Readies c p.sys.k o id → p.sys.k.stateOf id ≠ .unused := by
    rintro id ⟨-, ⟨rfl, -⟩ | hb⟩
    · rw [hready]
      simp
    · rw [hb]
      simp
  have hout : ∀ id, Readies c p.sys.k o id → ¬ (p.sys.k.stateOf id = .ready ∧ ¬ Posix.OnCpu p id) := by
    rintro id ⟨-, ⟨rfl, -⟩ | hb⟩ hq
    · exact hq.2 ⟨h.mode, h.cur, hl⟩
    · rw [hb] at hq
      exact absurd hq.1 (by simp)
  obtain ⟨w, happ, hw⟩ := heff.appends hr h.steady.part.part hbooks.set.wf hcreates fun id hid =>
    ⟨hbooks.lt id (hused id hid), hbooks.prio id (hused id hid),
      hbooks.set.count_lt (hbooks.prio id (hused id hid)) (hbooks.lt id (hused id hid)) (hout id hid)⟩
  obtain ⟨w', happ', hw'⟩ := heff'.appends hr (h.twin.part h.steady.part.part) h.wf hcreates
    fun id hid => by
      have hid' := hused id ((hsame id).mp hid)
      rw [h.twin.prio]
      exact ⟨hbooks.lt id hid', hbooks.prio id hid', hclean.1 _ (hbooks.prio id hid')⟩
  obtain rfl : w' = w := Option.ext fun id => ((hw' id).trans (hsame id)).trans (hw id).symm
  refine ⟨_, happ, ?_, fun hst hcont => ?_⟩
  · simpa only [h.twin.prio] using happ'
  · rw [(hw c).mpr ⟨hst, Or.inl ⟨rfl, hcont⟩⟩]
    rfl

/-- **An action of the running task** that is not the request to switch. -/
theorem Synced.act (h : Synced sz p s g c) (hr : sz.Representable)
    (hprog : ∀ t n, (prog t n).plain = true) (hclean : AgreeClean sz s)
    (hx : ∀ a, p.sys.conts c ≠ .pend a) :
    ∃ p' s', Posix.turn sz prog (p, g) = (p', g) ∧
      CortexM.turn sz idleStack prog sp (s, g) = (s', g) ∧ Synced sz p' s' g c := by
  have hlast : g.getLast? = some c := h.last.trans h.cur
  have hplain : (nextCall prog c p.sys.log).plain = true := hprog _ _
  obtain ⟨o, ho⟩ := h.exists_action (nextCall prog c p.sys.log)
  obtain ⟨o', ho', htw⟩ : ∃ o', nextAction sz (.cortexM idleStack) c (nextCall prog c p.sys.log) s.k
      (p.sys.conts c) = some o' ∧ TwinOutcome o o' := nextAction_twin h.twin hplain ho
  rw [← h.cont, ← h.log] at ho'
  obtain ⟨hstep, hturn⟩ := Posix.turn_action prog h.mode h.cur hlast ho
  have hturn' : CortexM.turn sz idleStack prog sp (s, g) = (s.apply c o', g) :=
    CortexM.turn_action h.pend' h.cur' hlast ho'
  refine ⟨_, _, hturn, hturn', ?_⟩
  have heff := taskEffect ho
  have heff' := taskEffect ho'
  have hl : (p.sys.conts c).leaving = false := by
    cases hcont : p.sys.conts c with
    | pend a => exact absurd hcont (hx a)
    | hop a => exact absurd hcont (h.inside a)
    | _ => rfl
  have hnext : Posix.Steady sz ⟨p.sys.apply c o, .running⟩ :=
    h.steady.step hr (Posix.readyClean_of_plain (p.sys.nextCall_plain hprog)) hstep
  rw [h.log] at heff'
  obtain ⟨e, happ, happ', hyield⟩ := h.appends hr hplain hclean hl heff heff' htw
  have hprio : (o.k.tcbs c).prio = (p.sys.k.tcbs c).prio :=
    (heff.tcb c).prio (by rw [htw.spawn]; simp)
  have hconts : ∀ u, u ≠ c → (p.sys.apply c o).conts u = p.sys.conts u ∧
      (s.apply c o').conts u = s.conts u := fun u hu => by
    rw [Sys.apply_conts_of_ne _ hu, Sys.apply_conts_of_ne _ hu, htw.spawn, htw.spawn']
    exact ⟨rfl, rfl⟩
  refine ⟨⟨hnext, htw.k, ?_, fun u => ?_, happ'.wf, ?_⟩, rfl, ?_, ?_, ?_, ?_, fun a => ?_, ?_,
    fun q hq hqc => ?_, ?_, fun hleave hst => ?_⟩
  · show s.log ++ o'.evs = p.sys.log ++ o.evs
    rw [h.log, htw.evs]
  · by_cases hu : u = c
    · rw [hu, Sys.apply_conts_self, Sys.apply_conts_self, htw.cont]
      exact Or.inl rfl
    · rw [(hconts u hu).1, (hconts u hu).2]
      exact h.conts u
  · exact h.last.trans heff.current.symm
  · exact heff.current.trans h.cur
  · exact heff'.current.trans h.cur'
  · refine (heff'.pend fun a => ?_).trans h.pend'
    rw [h.cont]
    exact hx a
  · show (s.apply c o').conts c = (p.sys.apply c o).conts c
    rw [Sys.apply_conts_self, Sys.apply_conts_self, htw.cont]
  · show (p.sys.apply c o).conts c ≠ _
    rw [Sys.apply_conts_self]
    exact heff.cont_ne_hop hx a
  · show (o.k.tcbs c).prio < _
    rw [hprio]
    exact h.prio
  · show Stutters (o.k.readyList sz q) (o'.k.readyList sz q)
    rw [happ.lists q hq, happ'.lists q hq]
    exact (h.others q hq fun heq => hqc (heq.trans hprio.symm)).append _
  · show Leads c (o.k.readyList sz (o.k.tcbs c).prio) (o'.k.readyList sz (o.k.tcbs c).prio)
    rw [hprio, happ.lists _ h.prio, happ'.lists _ h.prio]
    exact h.own.append _
  · -- a ready task on its way out has just yielded
    have hcont : ∃ a, o.cont = .pend a := by
      have hleave' : ((p.sys.apply c o).conts c).leaving = true := hleave
      rw [Sys.apply_conts_self] at hleave'
      cases hcont : o.cont with
      | pend a => exact ⟨a, rfl⟩
      | hop a => exact absurd hcont (heff.cont_ne_hop hx a)
      | _ =>
          rw [hcont] at hleave'
          exact absurd hleave' (by simp [Cont.leaving])
    refine ⟨p.sys.k.readyList sz (p.sys.k.tcbs c).prio, ?_⟩
    show o.k.readyList sz (o.k.tcbs c).prio = _
    rw [hprio, happ.lists _ h.prio, hyield hst hcont, entriesAt_cons, entriesAt_nil]
    simp

/-! ## Switches -/

/-- The pick of a switch, and what it leaves. -/
theorem CortexM.turn_pick (hsp : ∀ s, sp s ≠ 0) (hpend : s.k.pend = true) :
    CortexM.turn sz idleStack prog sp (s, g) =
      ({ s with k := { (hrtPickNextReady sz (toPick sz sp s)).2 with
          current := some (hrtPickNextReady sz (toPick sz sp s)).1 } },
        noteCurrent sz (some (hrtPickNextReady sz (toPick sz sp s)).1) g) :=
  CortexM.turn_pendsv hsp hpend

/-- A switch keeps twins. -/
theorem Twin.switch {k : Kernel} (h : Twin k s.k) :
    Twin k { (hrtPickNextReady sz (toPick sz sp s)).2 with
      current := some (hrtPickNextReady sz (toPick sz sp s)).1 } := by
  have hclear : Twin k { s.k with pend := false } := ⟨h.tcbs, h.sems, h.mutexes, h.queues, h.slice⟩
  exact hclear.schedule_right (CortexM.oldSp sp s)

/-- A switch withdraws the request. -/
theorem toPick_pend (sz : Sizing) (sp : Sys → ℕ) (s : Sys) : (toPick sz sp s).pend = false := by
  obtain ⟨sp', rq', e, hsave⟩ := saveOutgoing_frame sz (CortexM.oldSp sp s) { s.k with pend := false }
  rw [toPick, hsave]

/-- A switch requeues a ready outgoing task. -/
theorem toPick_rq_of_ready (hsp : ∀ s, sp s ≠ 0) (hcur : s.k.current = some c)
    (hst : s.k.stateOf c = .ready) :
    (toPick sz sp s).rq = (rqPush sz (s.k.tcbs c).prio c s.k).rq := by
  have hold : CortexM.oldSp sp s ≠ 0 := by
    rw [CortexM.oldSp, hcur]
    exact hsp s
  rw [toPick, saveOutgoing_of_ready (k := { s.k with pend := false }) hold hcur hst]
  exact rqPush_rq_congr (k := s.k) (setSp_rq c _ { s.k with pend := false }) _ _

/-- A switch leaves the queues alone when the outgoing task is not ready. -/
theorem toPick_rq_of_not_ready (hst : ∀ t, s.k.current = some t → s.k.stateOf t ≠ .ready) :
    (toPick sz sp s).rq = s.k.rq :=
  saveOutgoing_rq (k := { s.k with pend := false }) hst

/-- **A switch that comes back to task `c`**, whose entry is next. -/
theorem CortexM.turn_back {k : Kernel} (hr : sz.Representable) (hsp : ∀ s, sp s ≠ 0)
    (htwin : Twin k s.k) (hpend : s.k.pend = true) (hg : g.getLast? = some c)
    (hwf : ReadyWF sz (toPick sz sp s)) {q : ℕ} {rest : List ℕ} (hq : q < sz.maxPrio)
    (hpre : ∀ r < q, (toPick sz sp s).readyList sz r = [])
    (hl : (toPick sz sp s).readyList sz q = c :: rest) :
    ∃ k', CortexM.turn sz idleStack prog sp (s, g) = ({ s with k := k' }, g) ∧ Twin k k' ∧
      k'.pend = false ∧ k'.current = some c ∧ ReadyWF sz k' ∧
      ∀ r, k'.readyList sz r = if r = q then rest else (toPick sz sp s).readyList sz r := by
  have hpick := pickNextReady_of_head hr hwf hq hpre hl
  have hswitch : Twin k { (hrtPickNextReady sz (toPick sz sp s)).2 with
      current := some (hrtPickNextReady sz (toPick sz sp s)).1 } := htwin.switch
  rw [hpick] at hswitch
  refine ⟨_, ?_, hswitch, toPick_pend sz sp s, rfl, hwf.dropReady hr hl, ?_⟩
  · rw [CortexM.turn_pick hsp hpend, hpick, noteCurrent_of_last hg]
  · exact readyList_dropReady (hwf q hq) hr hl

/-- A turn in which a task on POSIX returns to the loop. -/
theorem Posix.turn_hop (prog : ℕ → ℕ → Call) {a : After} (hinv : Posix.ReadyInv sz p)
    (hm : p.mode = .running)
    (hcur : p.sys.k.current = some c) (hg : g.getLast? = some c) (ha : p.sys.conts c = .hop a) :
    Posix.step sz p (.task (p.sys.nextCall prog)) = some ⟨p.sys.land c a, .head⟩ ∧
      Posix.turn sz prog (p, g) = (⟨p.sys.land c a, .head⟩, g) := by
  have hne : c ≠ sz.idleId := by
    rintro rfl
    rw [hinv.idleCont] at ha
    exact absurd ha (by simp)
  have hstep : Posix.step sz p (.task (p.sys.nextCall prog)) = some ⟨p.sys.land c a, .head⟩ := by
    simp only [Posix.step, if_pos hm, hcur, ha, if_neg hne, hinv.entry_eq hcur ha]
    rfl
  have hdrive : Posix.drive prog p = .task (p.sys.nextCall prog) := if_pos hm
  refine ⟨hstep, ?_⟩
  rw [Posix.turn, advance_of_step (hdrive ▸ hstep)]
  exact congrArg _ (noteCurrent_of_last (hg.trans hcur.symm))

/-- Task `c` has requested a switch and is about to call `hrt_port_yield_to_scheduler`. -/
def Sys.requested (s : Sys) (c : ℕ) (a : After) : Sys :=
  s.apply c ⟨s.k.hrtPendContextSwitch, .hop a, [], none⟩

/-- **A task that has yielded** is requeued behind its own entry: another repetition. -/
theorem Synced.toPick_yielded (h : Synced sz p s g c) (hr : sz.Representable) (hsp : ∀ s, sp s ≠ 0)
    {a : After} (ha : p.sys.conts c = .pend a) (hst : p.sys.k.stateOf c = .ready)
    (hclean : AgreeClean sz (s.requested c a)) :
    ReadyWF sz (toPick sz sp (s.requested c a)) ∧
      QueuesStutter sz p.sys.k (toPick sz sp (s.requested c a)) := by
  have hbooks := h.steady.ready.books
  have hst' : s.k.stateOf c = .ready := (h.twin.stateOf c).trans hst
  have hlt : c < sz.maxTasks := hbooks.lt c (by rw [hst]; simp)
  have hprio := h.twin.prio c
  have hacc : RqAccepts sz s.k (p.sys.k.tcbs c).prio := ⟨h.prio, hclean.1 _ h.prio⟩
  have happ : Appends sz s.k (toPick sz sp (s.requested c a)) [((p.sys.k.tcbs c).prio, c)] := by
    refine (Appends.push h.wf hr hlt hacc).congr ?_
    rw [toPick_rq_of_ready (s := s.requested c a) hsp h.cur' hst', ← hprio]
    exact rqPush_rq_congr (by rfl) _ _
  obtain ⟨l, hl⟩ := h.yielded (by rw [ha]; rfl) hst
  have hown := h.own
  refine ⟨happ.wf, fun q hq => ?_⟩
  rw [happ.lists q hq, entriesAt_cons, entriesAt_nil, List.append_nil]
  by_cases hqc : q = (p.sys.k.tcbs c).prio
  · rw [if_pos hqc, hqc]
    rw [hl] at hown ⊢
    have hcond := (hclean.2 rfl c h.cur').1 hst'
    have hlist : (s.requested c a).k.readyList sz ((s.requested c a).k.tcbs c).prio =
        s.k.readyList sz (p.sys.k.tcbs c).prio := congrArg (s.k.readyList sz) hprio
    rw [hlist] at hcond
    rcases hcond with hall | ⟨-, hhead⟩
    · exact hown.stutters_of_all hall (hl ▸ hbooks.set.nodup _ h.prio)
    · exact (hown.stutters_of_head hhead).concat_last
  · rw [if_neg hqc, List.append_nil]
    exact h.others q hq hqc

/-- **A task that is gone** has left no entry behind, or one, which is next. -/
theorem Synced.toPick_gone (h : Synced sz p s g c) (sp : Sys → ℕ) (a : After)
    (hst : p.sys.k.stateOf c ≠ .ready)
    (hclean : AgreeClean sz (s.requested c a)) :
    (toPick sz sp (s.requested c a)).rq = s.k.rq ∧
      (QueuesStutter sz p.sys.k s.k ∨
        ∃ rest, s.k.readyList sz (p.sys.k.tcbs c).prio = c :: rest ∧
          (∀ q < (p.sys.k.tcbs c).prio, s.k.readyList sz q = []) ∧
          Stutters (p.sys.k.readyList sz (p.sys.k.tcbs c).prio) rest) := by
  have hst' : s.k.stateOf c ≠ .ready := by rwa [h.twin.stateOf]
  have hprio := h.twin.prio c
  constructor
  · refine toPick_rq_of_not_ready (s := s.requested c a) fun t ht => ?_
    obtain rfl : c = t := Option.some.inj (h.cur'.symm.trans ht)
    exact hst'
  · obtain ⟨hcount, habove⟩ := (hclean.2 rfl c h.cur').2 hst'
    have hlist : (s.requested c a).k.readyList sz ((s.requested c a).k.tcbs c).prio =
        s.k.readyList sz (p.sys.k.tcbs c).prio := congrArg (s.k.readyList sz) hprio
    rw [hlist] at hcount habove
    rcases h.own.stutters_or_cons hcount with hown | ⟨rest, hcons, hrest⟩
    · left
      intro q hq
      by_cases hqc : q = (p.sys.k.tcbs c).prio
      · rw [hqc]
        exact hown
      · exact h.others q hq hqc
    · right
      refine ⟨rest, hcons, fun q hq => ?_, hrest⟩
      exact habove (by rw [hcons]; exact List.mem_cons_self) q (by rw [hprio.symm] at hq; exact hq)

/-- On POSIX the request is followed by the return to the loop. -/
theorem Synced.posix_leaves (h : Synced sz p s g c) (hr : sz.Representable)
    (hprog : ∀ t n, (prog t n).plain = true) {a : After} (ha : p.sys.conts c = .pend a) :
    Posix.Steady sz ⟨(p.sys.requested c a).land c a, .head⟩ ∧
      Glides (Posix.turn sz prog) Prod.snd (p, g) (⟨(p.sys.requested c a).land c a, .head⟩, g) := by
  have hlast : g.getLast? = some c := h.last.trans h.cur
  obtain ⟨hstep₁, hturn₁⟩ := Posix.turn_action prog h.mode h.cur hlast
    (o := ⟨p.sys.k.hrtPendContextSwitch, .hop a, [], none⟩) (by rw [ha]; rfl)
  have hsteady₁ := h.steady.step hr (Posix.readyClean_of_plain (Sys.nextCall_plain hprog _)) hstep₁
  obtain ⟨hstep₂, hturn₂⟩ := Posix.turn_hop prog hsteady₁.ready rfl h.cur hlast
    (Sys.apply_conts_self _ _ _)
  have hsteady₂ := hsteady₁.step hr (Posix.readyClean_of_plain (Sys.nextCall_plain hprog _)) hstep₂
  exact ⟨hsteady₂, (Glides.of_eq hturn₁).trans (Glides.of_eq hturn₂) (Or.inl rfl)⟩

/-- With the task back in the loop on POSIX, the systems stay side by side as long as it is inside
`hrt_port_yield_to_scheduler` on Cortex-M. -/
theorem Synced.paired_left (h : Synced sz p s g c) {a : After}
    (hsteady : Posix.Steady sz ⟨(p.sys.requested c a).land c a, .head⟩) {s' : Sys}
    (htwin : Twin p.sys.k s'.k) (hlog : s'.log = s.log)
    (hconts : ∀ u, u ≠ c → s'.conts u = s.conts u)
    (hself : s'.conts c = .hop a ∨ s'.conts c = .resumed a) (hwf : ReadyWF sz s'.k) :
    Paired sz ⟨(p.sys.requested c a).land c a, .head⟩ s' g := by
  refine ⟨hsteady, htwin.control, ?_, fun u => ?_, hwf, h.last⟩
  · show s'.log = p.sys.log ++ []
    rw [hlog, h.log, List.append_nil]
  · by_cases hu : u = c
    · rw [hu, Sys.land_conts_self]
      exact hself.elim (fun hs => Or.inr ⟨a, rfl, hs⟩) fun hs => Or.inl hs
    · rw [Sys.land_conts_of_ne _ hu, Sys.requested, Sys.apply_conts_of_ne _ hu, hconts u hu]
      exact h.conts u

/-- The state after the request, seen from the other tasks and from the log. -/
theorem Sys.requested_eq (s : Sys) (c : ℕ) (a : After) :
    (s.requested c a).log = s.log ∧ (s.requested c a).conts c = .hop a ∧
      ∀ u, u ≠ c → (s.requested c a).conts u = s.conts u :=
  ⟨List.append_nil _, Sys.apply_conts_self _ _ _, fun _ hu => Sys.apply_conts_of_ne s hu _⟩

/-- **An entry left over** by a task that is gone: a switch comes back to the task, which makes its
second request, and now the entry is used up. -/
theorem Synced.leave_again (h : Synced sz p s g c) (hr : sz.Representable) (hsp : ∀ s, sp s ≠ 0)
    {a : After} (hsteady : Posix.Steady sz ⟨(p.sys.requested c a).land c a, .head⟩)
    (hst : p.sys.k.stateOf c ≠ .ready) (hrq : (toPick sz sp (s.requested c a)).rq = s.k.rq)
    {rest : List ℕ} (hl : s.k.readyList sz (p.sys.k.tcbs c).prio = c :: rest)
    (habove : ∀ q < (p.sys.k.tcbs c).prio, s.k.readyList sz q = [])
    (hrest : Stutters (p.sys.k.readyList sz (p.sys.k.tcbs c).prio) rest) :
    ∃ s', Glides (CortexM.turn sz idleStack prog sp) Prod.snd (s.requested c a, g) (s', g) ∧
      Switching sz sp ⟨(p.sys.requested c a).land c a, .head⟩ s' g := by
  have hlast : g.getLast? = some c := h.last.trans h.cur
  obtain ⟨hlog, hself, hconts⟩ := s.requested_eq c a
  have hlist : ∀ q, (toPick sz sp (s.requested c a)).readyList sz q = s.k.readyList sz q :=
    Kernel.readyList_congr hrq
  have hwf : ReadyWF sz (toPick sz sp (s.requested c a)) := fun q hq => hrq ▸ h.wf q hq
  -- the switch back
  obtain ⟨k₂, hturn, htwin₂, hpend₂, hcur₂, hwf₂, hlist₂⟩ :=
    CortexM.turn_back (s := s.requested c a) hr hsp h.twin.control rfl hlast hwf h.prio
      (fun q hq => (hlist q).trans (habove q hq)) ((hlist _).trans hl)
  -- the second request
  have hturn' : CortexM.turn sz idleStack prog sp ({ s.requested c a with k := k₂ }, g) =
      ({ ({ s.requested c a with k := k₂ } : Sys).land c a with k := k₂.hrtPendContextSwitch }, g) :=
    CortexM.turn_hop hpend₂ hcur₂ hlast hself
  have hpaired : Paired sz ⟨(p.sys.requested c a).land c a, .head⟩
      { ({ s.requested c a with k := k₂ } : Sys).land c a with k := k₂.hrtPendContextSwitch } g :=
    h.paired_left hsteady htwin₂.control hlog
      (fun u hu => (Sys.land_conts_of_ne _ hu a).trans (hconts u hu))
      (Or.inr (Sys.land_conts_self _ c a)) hwf₂
  have hrq₂ : (toPick sz sp { ({ s.requested c a with k := k₂ } : Sys).land c a with
      k := k₂.hrtPendContextSwitch }).rq = k₂.rq := by
    refine toPick_rq_of_not_ready fun t ht => ?_
    obtain rfl : c = t := Option.some.inj (hcur₂.symm.trans ht)
    rw [hpaired.twin.stateOf]
    exact hst
  refine ⟨_, (Glides.of_eq hturn).trans (.of_eq hturn') (Or.inl rfl), hpaired, rfl, rfl, rfl,
    fun q hq => hrq₂ ▸ hwf₂ q hq, fun q hq => ?_⟩
  rw [Kernel.readyList_congr hrq₂, hlist₂]
  show Stutters (p.sys.k.readyList sz q) _
  split_ifs with hqc
  · rw [hqc]
    exact hrest
  · rw [hlist]
    exact h.others q hq hqc

/-- **The request to switch.** On POSIX the task returns to the loop. On Cortex-M the switch is pending;
if an entry of the task has been left over, a switch comes back to it first, and it makes its second
request. -/
theorem Synced.leave (h : Synced sz p s g c) (hr : sz.Representable) (hsp : ∀ s, sp s ≠ 0)
    (hprog : ∀ t n, (prog t n).plain = true) {a : After} (ha : p.sys.conts c = .pend a)
    (hclean : ∀ n, AgreeClean sz ((CortexM.turn sz idleStack prog sp)^[n] (s, g)).1) :
    ∃ p' s', Glides (Posix.turn sz prog) Prod.snd (p, g) (p', g) ∧
      Glides (CortexM.turn sz idleStack prog sp) Prod.snd (s, g) (s', g) ∧
      Switching sz sp p' s' g := by
  obtain ⟨hsteady, hglide⟩ := h.posix_leaves hr hprog ha
  obtain ⟨hlog, hself, hconts⟩ := s.requested_eq c a
  have hturn : CortexM.turn sz idleStack prog sp (s, g) = (s.requested c a, g) :=
    CortexM.turn_action h.pend' h.cur' (h.last.trans h.cur) (by rw [h.cont, ha]; rfl)
  have hglide' : Glides (CortexM.turn sz idleStack prog sp) Prod.snd (s, g) (s.requested c a, g) :=
    Glides.of_eq hturn
  have hclean₁ : AgreeClean sz (s.requested c a) := by
    have hone := hclean 1
    rwa [Function.iterate_one, hturn] at hone
  have hpaired : Paired sz ⟨(p.sys.requested c a).land c a, .head⟩ (s.requested c a) g :=
    h.paired_left hsteady h.twin.control hlog hconts (Or.inl hself) h.wf
  by_cases hst : p.sys.k.stateOf c = .ready
  · obtain ⟨hwf, hqueues⟩ := h.toPick_yielded hr hsp ha hst hclean₁
    exact ⟨_, _, hglide, hglide', hpaired, rfl, rfl, rfl, hwf, hqueues⟩
  · obtain ⟨hrq, hqueues | ⟨rest, hl, habove, hrest⟩⟩ := h.toPick_gone sp a hst hclean₁
    · refine ⟨_, _, hglide, hglide', hpaired, rfl, rfl, rfl, fun q hq => hrq ▸ h.wf q hq,
        fun q hq => ?_⟩
      rw [Kernel.readyList_congr hrq]
      exact hqueues q hq
    · obtain ⟨s', hagain, hswitch⟩ := h.leave_again hr hsp hsteady hst hrq hl habove hrest
      exact ⟨_, s', hglide, hglide'.trans hagain (Or.inl rfl), hswitch⟩

/-- The loop finds nobody ready. -/
theorem Posix.step_loop_idle (hm : p.mode = .cleared)
    (hidle : (hrtPickNextReady sz p.sys.k).1 = sz.idleId) :
    Posix.step sz p .loop =
      some ⟨{ p.sys with k := (hrtPickNextReady sz p.sys.k).2 }, .head⟩ := by
  simp only [Posix.step, Posix.loopStep, hm, hidle, if_true]

/-- The loop swaps to the task it has picked. -/
theorem Posix.step_loop_swap (hm : p.mode = .cleared)
    (hne : (hrtPickNextReady sz p.sys.k).1 ≠ sz.idleId) :
    Posix.step sz p .loop = some ⟨{ p.sys with k := { (hrtPickNextReady sz p.sys.k).2 with
      current := some (hrtPickNextReady sz p.sys.k).1 } }, .running⟩ := by
  simp only [Posix.step, Posix.loopStep, hm, if_neg hne]

/-- The loop has taken the request. -/
def Posix.State.cleared (p : Posix.State) : Posix.State :=
  ⟨{ p.sys with k := { p.sys.k with pend := false } }, .cleared⟩

/-- **The loop takes the request and picks.** -/
theorem Posix.turns_loop (prog : ℕ → ℕ → Call) (hm : p.mode = .head) (hpend : p.sys.k.pend = true)
    (hg : g.getLast? = p.sys.k.current) {p' : Posix.State}
    (hpick : Posix.step sz p.cleared .loop = some p') :
    Posix.step sz p .loop = some p.cleared ∧
      Glides (Posix.turn sz prog) Prod.snd (p, g) (p', noteCurrent sz p'.sys.k.current g) := by
  have hstep : Posix.step sz p .loop = some p.cleared := by
    simp only [Posix.step, Posix.loopStep, hm, hpend, if_true]
    rfl
  have hdrive : Posix.drive prog p = .loop := if_neg (by rw [hm]; simp)
  have hturn₁ : Posix.turn sz prog (p, g) = (p.cleared, g) := by
    rw [Posix.turn, advance_of_step (hdrive ▸ hstep)]
    exact congrArg _ (noteCurrent_of_last hg)
  have hturn₂ : Posix.turn sz prog (p.cleared, g) = (p', noteCurrent sz p'.sys.k.current g) := by
    rw [Posix.turn, advance_of_step]
    exact hpick
  exact ⟨hstep, (Glides.of_eq hturn₁).trans (.of_eq hturn₂) (Or.inl rfl)⟩

/-- **The second switch of a resumed task.** Task `d` was switched to inside
`hrt_port_yield_to_scheduler`; alone in its queue, it is switched to again. -/
theorem Paired.second_switch {d : ℕ} {a : After} (h : Paired sz p s g) (hr : sz.Representable)
    (hsp : ∀ s, sp s ≠ 0) (hm : p.mode = .running) (hcur : p.sys.k.current = some d)
    (hcur' : s.k.current = some d) (hpend' : s.k.pend = false)
    (hcont : p.sys.conts d = .resumed a) (hcont' : s.conts d = .hop a)
    (habove : ∀ q < (p.sys.k.tcbs d).prio, s.k.readyList sz q = [])
    (hothers : ∀ q < sz.maxPrio, q ≠ (p.sys.k.tcbs d).prio →
      Stutters (p.sys.k.readyList sz q) (s.k.readyList sz q))
    (hown : Leads d (p.sys.k.readyList sz (p.sys.k.tcbs d).prio)
      (s.k.readyList sz (p.sys.k.tcbs d).prio))
    (hclean : ∀ n, AgreeClean sz ((CortexM.turn sz idleStack prog sp)^[n] (s, g)).1) :
    ∃ s', Glides (CortexM.turn sz idleStack prog sp) Prod.snd (s, g) (s', g) ∧
      Synced sz p s' g d := by
  have hlast : g.getLast? = some d := h.last.trans hcur
  have hbooks := h.steady.ready.books
  have hon : Posix.OnCpu p d := ⟨hm, hcur, by rw [hcont]; rfl⟩
  have hst := h.steady.ready.ready d hon
  have hused : p.sys.k.stateOf d ≠ .unused := by rw [hst]; simp
  have hprio := hbooks.prio d hused
  -- the second request
  obtain ⟨s₁, hs₁⟩ : ∃ s₁ : Sys, s₁ = { s.land d a with k := s.k.hrtPendContextSwitch } := ⟨_, rfl⟩
  have hk₁ : s₁.k = s.k.hrtPendContextSwitch := by rw [hs₁]
  have hself₁ : s₁.conts d = .resumed a := by
    rw [hs₁]
    exact Sys.land_conts_self s d a
  have hturn₁ : CortexM.turn sz idleStack prog sp (s, g) = (s₁, g) := by
    rw [hs₁]
    exact CortexM.turn_hop hpend' hcur' hlast hcont'
  have htwin₁ : Twin p.sys.k s₁.k := by
    rw [hk₁]
    exact h.twin.control
  have hclean₁ : AgreeClean sz s₁ := by
    have hone := hclean 1
    rwa [Function.iterate_one, hturn₁] at hone
  have hcur₁ : s₁.k.current = some d := by rw [hk₁]; exact hcur'
  have hst₁ : s₁.k.stateOf d = .ready := (htwin₁.stateOf d).trans hst
  have hlist₁ : ∀ q, s₁.k.readyList sz q = s.k.readyList sz q := fun q => by rw [hk₁]; rfl
  -- the task is alone in its queue
  have hall : ∀ id ∈ s.k.readyList sz (p.sys.k.tcbs d).prio, id = d := by
    have hcond := (hclean₁.2 (by rw [hk₁]; rfl) d hcur₁).1 hst₁
    rw [htwin₁.prio, hlist₁, hself₁] at hcond
    exact hcond.resolve_right fun hleave => absurd hleave.1 (by simp [Cont.leaving])
  have hnot : d ∉ p.sys.k.readyList sz (p.sys.k.tcbs d).prio := fun hmem =>
    ((hbooks.set.mem_iff _ hprio d).mp hmem).1.2 hon
  obtain ⟨hempty, n, hrep⟩ := hown.eq_replicate hall hnot
  -- so it is requeued and picked again
  have hacc : RqAccepts sz s.k (p.sys.k.tcbs d).prio := ⟨hprio, by
    have hroom := hclean₁.1 _ hprio
    rwa [hk₁] at hroom⟩
  have happ : Appends sz s.k (toPick sz sp s₁) [((p.sys.k.tcbs d).prio, d)] := by
    refine (Appends.push h.wf hr (hbooks.lt d hused) hacc).congr ?_
    rw [toPick_rq_of_ready hsp hcur₁ hst₁, htwin₁.prio]
    exact rqPush_rq_congr (by rw [hk₁]; rfl) _ _
  have hlists : ∀ q < sz.maxPrio, (toPick sz sp s₁).readyList sz q =
      s.k.readyList sz q ++ if q = (p.sys.k.tcbs d).prio then [d] else [] := fun q hq => by
    rw [happ.lists q hq, entriesAt_cons, entriesAt_nil, List.append_nil]
  have hl : (toPick sz sp s₁).readyList sz (p.sys.k.tcbs d).prio = d :: List.replicate n d := by
    rw [hlists _ hprio, if_pos rfl, hrep, ← List.replicate_succ', List.replicate_succ]
  have hpre : ∀ q < (p.sys.k.tcbs d).prio, (toPick sz sp s₁).readyList sz q = [] := fun q hq => by
    rw [hlists q (by omega), habove q hq, if_neg (by omega), List.append_nil]
  obtain ⟨k₂, hturn₂, htwin₂, hpend₂, hcur₂, hwf₂, hlist₂⟩ :=
    CortexM.turn_back hr hsp htwin₁ (by rw [hk₁]; rfl) hlast happ.wf hprio hpre hl
  refine ⟨_, (Glides.of_eq hturn₁).trans (.of_eq hturn₂) (Or.inl rfl),
    ⟨h.steady, htwin₂, ?_, fun u => ?_, hwf₂, h.last⟩, hm, hcur, hcur₂, hpend₂, ?_, ?_, hprio,
    fun q hq hqd => ?_, ?_, ?_⟩
  · show s₁.log = p.sys.log
    rw [hs₁]
    exact h.log
  · show Behind (p.sys.conts u) (s₁.conts u)
    by_cases hu : u = d
    · rw [hu, hself₁, hcont]
      exact Or.inl rfl
    · rw [hs₁]
      show Behind (p.sys.conts u) ((s.land d a).conts u)
      rw [Sys.land_conts_of_ne s hu]
      exact h.conts u
  · exact hself₁.trans hcont.symm
  · intro x
    rw [hcont]
    simp
  · show Stutters (p.sys.k.readyList sz q) (k₂.readyList sz q)
    rw [hlist₂, if_neg hqd, hlists q hq, if_neg hqd, List.append_nil]
    exact hothers q hq hqd
  · show Leads d (p.sys.k.readyList sz _) (k₂.readyList sz _)
    rw [hlist₂, if_pos rfl, hempty]
    exact ⟨n, [], (List.append_nil _).symm, .nil⟩
  · intro hleave
    rw [hcont] at hleave
    exact absurd hleave (by simp [Cont.leaving])

/-- **Both pick**: the same task, or nobody. -/
theorem Switching.pick (h : Switching sz sp p s g) (hr : sz.Representable) (hsp : ∀ s, sp s ≠ 0)
    (hclean : ∀ n, AgreeClean sz ((CortexM.turn sz idleStack prog sp)^[n] (s, g)).1) :
    ∃ p' s' g', Glides (Posix.turn sz prog) Prod.snd (p, g) (p', g') ∧
      Glides (CortexM.turn sz idleStack prog sp) Prod.snd (s, g) (s', g') ∧
      (Stopped sz p' s' g' ∨ ∃ d, Synced sz p' s' g' d) := by
  have hturn' : CortexM.turn sz idleStack prog sp (s, g) = _ := CortexM.turn_pick hsp h.pend'
  have htwin' : Twin p.sys.k { (hrtPickNextReady sz (toPick sz sp s)).2 with
      current := some (hrtPickNextReady sz (toPick sz sp s)).1 } := h.twin.switch
  have hpend' : (hrtPickNextReady sz (toPick sz sp s)).2.pend = false := by
    obtain ⟨rq, hframe⟩ := hrtPickNextReady_frame sz (toPick sz sp s)
    rw [hframe]
    exact toPick_pend sz sp s
  have hbooks := h.steady.ready.books
  rcases pick_match (k := p.cleared.sys.k) hr hbooks.set.wf h.wfPick h.queues with ⟨hidle, hidle'⟩ |
      ⟨q, d, hq, hmem, hfst, hfst', hwf', habove, hothers, hown⟩
  · -- nobody is ready
    have hstep : Posix.step sz p.cleared .loop = some ⟨p.cleared.sys, .head⟩ := by
      rw [Posix.step_loop_idle rfl (by rw [hidle]), hidle]
    rw [hidle', noteCurrent_idle] at hturn'
    obtain ⟨-, hglide⟩ := Posix.turns_loop prog h.mode h.pend h.last hstep
    rw [noteCurrent_of_last (show g.getLast? = p.cleared.sys.k.current from h.last)] at hglide
    refine ⟨_, _, g, hglide, .of_eq hturn', Or.inl ⟨rfl, rfl, h.last, rfl, ?_, ?_⟩⟩
    · exact toPick_pend sz sp s
    · rcases h.conts sz.idleId with hc | ⟨a, ha, -⟩
      · exact hc.trans h.steady.ready.idleCont
      · rw [h.steady.ready.idleCont] at ha
        exact absurd ha (by simp)
  · -- task `d` is next
    obtain ⟨⟨hready, -⟩, hprio⟩ := (hbooks.set.mem_iff q hq d).mp hmem
    have hne : d ≠ sz.idleId := by
      rintro rfl
      rw [h.steady.ready.idle] at hready
      exact absurd hready (by simp)
    have hstep := Posix.step_loop_swap (p := p.cleared) rfl (by rw [hfst]; exact hne)
    obtain ⟨hstep₁, hglide⟩ := Posix.turns_loop prog h.mode h.pend h.last hstep
    have hsteady := (h.steady.step hr (a := .loop) trivial hstep₁).step hr (a := .loop) trivial hstep
    obtain ⟨rq, hframe⟩ := hrtPickNextReady_frame sz p.cleared.sys.k
    have hin : (p.sys.conts d).leaving = false := Bool.eq_false_of_not_eq_true fun hl => by
      have hrun := (h.steady.ready.out d hl).1
      rw [h.mode] at hrun
      exact absurd hrun (by simp)
    rw [hfst] at hglide hsteady
    rw [hfst'] at hturn' htwin'
    generalize (hrtPickNextReady sz (toPick sz sp s)).2 = kc at *
    generalize (hrtPickNextReady sz p.cleared.sys.k).2 = kp at *
    subst hframe
    have hpaired : Paired sz ⟨{ p.cleared.sys with k := { p.cleared.sys.k with
        rq := rq, current := some d } }, .running⟩ { s with k := { kc with current := some d } }
        (noteCurrent sz (some d) g) :=
      ⟨hsteady, htwin'.control, h.log, h.conts, hwf', getLast?_noteCurrent hne g⟩
    have hothers' : ∀ r < sz.maxPrio, r ≠ (p.sys.k.tcbs d).prio → _ := fun r hr hrd =>
      hothers r hr (by rwa [hprio] at hrd)
    rcases h.conts d with hcont | ⟨a, ha, ha'⟩
    · refine ⟨_, _, _, hglide, .of_eq hturn', Or.inr ⟨d, hpaired, rfl, rfl, rfl, hpend', hcont,
        fun a ha => ?_, ?_, hothers', ?_, fun hleave => ?_⟩⟩
      · have ha' : p.sys.conts d = .hop a := ha
        rw [ha'] at hin
        exact absurd hin (by simp [Cont.leaving])
      · show (p.sys.k.tcbs d).prio < _
        rw [hprio]
        exact hq
      · show Leads d (Kernel.readyList sz _ (p.sys.k.tcbs d).prio)
          (Kernel.readyList sz _ (p.sys.k.tcbs d).prio)
        rw [hprio]
        exact hown
      · exact absurd (hleave.symm.trans hin) (by simp)
    · have hfirst : Glides (CortexM.turn sz idleStack prog sp) Prod.snd (s, g) _ := .of_eq hturn'
      obtain ⟨s', hrest, hsync⟩ := hpaired.second_switch hr hsp rfl rfl rfl hpend' ha ha'
        (fun r hr => habove r (by rwa [← hprio])) hothers' (by
          show Leads d (Kernel.readyList sz _ (p.sys.k.tcbs d).prio)
            (Kernel.readyList sz _ (p.sys.k.tcbs d).prio)
          rw [hprio]
          exact hown) (hfirst.forall_iterate (P := fun y => AgreeClean sz y.1) hclean)
      exact ⟨_, s', _, hglide, hfirst.trans hrest (Or.inr rfl), Or.inr ⟨d, hsync⟩⟩

/-- **Nobody is left to run**: both stay as they are. -/
theorem Stopped.stay (h : Stopped sz p s g) :
    Posix.turn sz prog (p, g) = (p, g) ∧ CortexM.turn sz idleStack prog sp (s, g) = (s, g) := by
  constructor
  · have hdrive : Posix.drive prog p = .loop := if_neg (by rw [h.mode]; simp)
    have hstep : Posix.step sz p .loop = some p := by
      simp only [Posix.step, Posix.loopStep, h.mode, h.pend, if_neg Bool.false_ne_true]
    rw [Posix.turn, advance_of_step (hdrive ▸ hstep), noteCurrent_of_last h.last]
  · have hdrive : CortexM.drive prog sp s = .task (s.nextCall prog) := by
      rw [CortexM.drive, h.pend']
      rfl
    have hstep : CortexM.step sz idleStack s (.task (s.nextCall prog)) = none := by
      simp only [CortexM.step, h.cur', h.pend', h.cont, Sys.task, nextAction]
      rfl
    exact advance_of_none (hdrive ▸ hstep)

/-! ## Lockstep -/

/-- **The relation** between the two machines with their records. -/
def Agrees (sz : Sizing) (sp : Sys → ℕ) (x : Posix.State × List ℕ) (y : Sys × List ℕ) : Prop :=
  x.2 = y.2 ∧ (Stopped sz x.1 y.1 x.2 ∨ Switching sz sp x.1 y.1 x.2 ∨ ∃ c, Synced sz x.1 y.1 x.2 c)

/-- **Related machines go on to related ones.** -/
theorem Agrees.glide {x : Posix.State × List ℕ} {y : Sys × List ℕ} (h : Agrees sz sp x y)
    (hr : sz.Representable) (hsp : ∀ s, sp s ≠ 0) (hprog : ∀ t n, (prog t n).plain = true)
    (hclean : ∀ n, AgreeClean sz ((CortexM.turn sz idleStack prog sp)^[n] y).1) :
    ∃ x' y', Glides (Posix.turn sz prog) Prod.snd x x' ∧
      Glides (CortexM.turn sz idleStack prog sp) Prod.snd y y' ∧ Agrees sz sp x' y' := by
  obtain ⟨p, g⟩ := x
  obtain ⟨s, g'⟩ := y
  obtain ⟨rfl, hstop | hswitch | ⟨c, hsync⟩⟩ := h
  · obtain ⟨hp, hs⟩ := hstop.stay
    exact ⟨_, _, .of_eq hp, .of_eq hs, rfl, Or.inl hstop⟩
  · obtain ⟨p', s', g', hp, hs, hnext⟩ := hswitch.pick hr hsp hclean
    exact ⟨_, _, hp, hs, rfl, hnext.imp_right Or.inr⟩
  · by_cases hpend : ∃ a, p.sys.conts c = .pend a
    · obtain ⟨a, ha⟩ := hpend
      obtain ⟨p', s', hp, hs, hnext⟩ := hsync.leave hr hsp hprog ha hclean
      exact ⟨_, _, hp, hs, rfl, Or.inr (Or.inl hnext)⟩
    · obtain ⟨p', s', hp, hs, hnext⟩ := hsync.act hr hprog (hclean 0) fun a ha => hpend ⟨a, ha⟩
      exact ⟨_, _, .of_eq hp, .of_eq hs, rfl, Or.inr (Or.inr ⟨c, hnext⟩)⟩

/-- **The launched systems are related.** -/
theorem Agrees.launch (hr : sz.Representable) (sp : Sys → ℕ) {cfg : Option KernelConfig}
    {objs : ObjectSpecs} {mem : Kernel} {tasks : List TaskArgs}
    (hprio : ∀ a ∈ tasks, a.prio < sz.maxPrio) (hlen : tasks.length ≤ sz.idleId) :
    Agrees sz sp (Posix.launch sz cfg objs mem tasks, [])
      (CortexM.launch sz idleStack cfg objs mem tasks, []) := by
  have hboot := TwinBoot.boot sz idleStack cfg objs mem
  have hsteady : Posix.Steady sz (Posix.boot sz cfg objs mem) :=
    ⟨.boot sz cfg objs mem, PartInv.boot sz .posix cfg objs mem, .boot sz cfg objs mem⟩
  have hcreated := hsteady.createAll hr tasks hboot hprio (by omega)
  have hall := hboot.createAll .posix (.cortexM idleStack) tasks
  have hstarted : Posix.Steady sz (Posix.launch sz cfg objs mem tasks) :=
    hcreated.step hr (a := .start) trivial rfl
  have hwf : ReadyWF sz (CortexM.launch sz idleStack cfg objs mem tasks).k := fun q hq =>
    hall.rq ▸ hcreated.ready.books.set.wf q hq
  have hrq : (toPick sz sp (CortexM.launch sz idleStack cfg objs mem tasks)).rq =
      (CortexM.launch sz idleStack cfg objs mem tasks).k.rq :=
    toPick_rq_of_not_ready fun t ht => absurd (hall.current.2.symm.trans ht) (by simp)
  refine ⟨rfl, Or.inr (Or.inl ⟨⟨hstarted, ?_, ?_, fun u => ?_, hwf, ?_⟩, rfl, rfl, rfl, ?_,
    fun q hq => ?_⟩)⟩
  · exact hall.twin.control
  · exact hall.log.2.trans hall.log.1.symm
  · exact Or.inl (congrFun hall.conts u)
  · exact hall.current.1.symm
  · exact fun q hq => hrq ▸ hwf q hq
  · have hlist : (toPick sz sp (CortexM.launch sz idleStack cfg objs mem tasks)).readyList sz q =
        (Posix.launch sz cfg objs mem tasks).sys.k.readyList sz q := by
      rw [Kernel.readyList_congr hrq]
      exact Kernel.readyList_congr hall.rq q
    rw [hlist]
    exact .refl _

end Steps

/-! ## Results -/

section Results

variable {sz : Sizing} {idleStack : ℕ} {prog : ℕ → ℕ → Call} {sp : Sys → ℕ}
  {cfg : Option KernelConfig} {objs : ObjectSpecs} {mem : Kernel} {tasks : List TaskArgs}

/-- **The two schedulers agree.** Let the same tasks be created on both ports and follow the same
programs, without ticks and ISRs. If every state reached on Cortex-M is clean, the `i`-th task made
current is the same on both, and one exists on either if it exists on the other. -/
theorem schedulers_agree (hr : sz.Representable) (hsp : ∀ s, sp s ≠ 0)
    (hprog : ∀ t n, (prog t n).plain = true) (hprio : ∀ a ∈ tasks, a.prio < sz.maxPrio)
    (hlen : tasks.length ≤ sz.idleId)
    (hclean : ∀ n, AgreeClean sz ((CortexM.turn sz idleStack prog sp)^[n]
      (CortexM.launch sz idleStack cfg objs mem tasks, [])).1) (i t : ℕ) :
    (∃ n, ((Posix.turn sz prog)^[n] (Posix.launch sz cfg objs mem tasks, [])).2[i]? = some t) ↔
    ∃ n, ((CortexM.turn sz idleStack prog sp)^[n]
      (CortexM.launch sz idleStack cfg objs mem tasks, [])).2[i]? = some t := by
  obtain ⟨hleft, hright⟩ := lockstep (f := Posix.turn sz prog) (h := CortexM.turn sz idleStack prog sp)
    (R := fun x y => Agrees sz sp x y ∧
      ∀ n, AgreeClean sz ((CortexM.turn sz idleStack prog sp)^[n] y).1)
    (fun _ _ hR => hR.1.1)
    (fun x y hR => by
      obtain ⟨x', y', hx, hy, hnext⟩ := hR.1.glide hr hsp hprog hR.2
      exact ⟨x', y', hx, hy, hnext, hy.forall_iterate (P := fun y => AgreeClean sz y.1) hR.2⟩)
    ⟨Agrees.launch hr sp hprio hlen, hclean⟩
  constructor
  · rintro ⟨n, hn⟩
    obtain ⟨m, hm⟩ := hleft n
    exact ⟨m, by rw [← hm]; exact hn⟩
  · rintro ⟨m, hm⟩
    obtain ⟨n, hn⟩ := hright m
    exact ⟨n, by rw [hn]; exact hm⟩

end Results

/-- A task of priority `p`. -/
def taskOf (p : ℕ) : TaskArgs := ⟨0x8000101, 0, 0x20001000, 64, some ⟨p, 0⟩⟩

/-- A high-priority task waits for the semaphore that a low-priority one gives. -/
def handshake : ℕ → ℕ → Call
  | 0, 0 => .semTake 0
  | 1, 0 => .semGive 0
  | _, _ => .taskDelete

/-- **A run of clean states**: the low-priority task wakes the other one, yields to it and is resumed;
both ports make tasks 0, 1, 0, 1 current. -/
theorem schedulers_agree_handshake :
    (∃ n, ((Posix.turn .default handshake)^[n]
      (Posix.launch .default none .basic .bss [taskOf 0, taskOf 1], [])).2[3]? = some 1) ↔
    ∃ n, ((CortexM.turn .default 0x20000000 handshake fun _ => 1)^[n]
      (CortexM.launch .default 0x20000000 none .basic .bss [taskOf 0, taskOf 1], [])).2[3]? =
        some 1 := by
  have hfirst : ∀ n < 24, AgreeClean .default ((CortexM.turn .default 0x20000000 handshake fun _ => 1)^[n]
      (CortexM.launch .default 0x20000000 none .basic .bss [taskOf 0, taskOf 1], [])).1 := by
    decide +kernel
  have hplain : ∀ t n, (handshake t n).plain = true := by
    intro t n
    unfold handshake
    split <;> rfl
  refine schedulers_agree (by decide) (by simp) hplain (by decide) (by decide) (fun n => ?_) 3 1
  -- after 23 turns nobody is left to run
  rcases Nat.lt_or_ge n 23 with hn | hn
  · exact hfirst n (by omega)
  · rw [CortexM.iterate_turn_of_none (Option.isNone_iff_eq_none.mp (by decide +kernel)) hn]
    exact hfirst 23 (by omega)

/-- The lowest task wakes a peer, which wakes a task of higher priority. -/
def chain : ℕ → ℕ → Call
  | 0, 0 => .semTake 1
  | 1, 0 => .semTake 0
  | 1, 1 => .semGive 1
  | 2, 0 => .semGive 0
  | _, _ => .taskDelete

/-- **The second switch rotates a resumed task.** Task 1, woken by its peer 2 and switched to, is behind
it again as soon as it runs on Cortex-M; on POSIX it runs on and wakes task 0. -/
theorem late_switch_rotates :
    (∀ t n, (chain t n).plain = true) ∧
    (∀ a ∈ [taskOf 0, taskOf 1, taskOf 1], a.prio < Sizing.default.maxPrio) ∧
    ¬ ∀ i t : ℕ,
      (∃ n, ((Posix.turn .default chain)^[n]
        (Posix.launch .default none .basic .bss [taskOf 0, taskOf 1, taskOf 1], [])).2[i]? = some t) ↔
      ∃ n, ((CortexM.turn .default 0x20000000 chain fun _ => 1)^[n]
        (CortexM.launch .default 0x20000000 none .basic .bss [taskOf 0, taskOf 1, taskOf 1],
          [])).2[i]? = some t := by
  refine ⟨fun t n => by unfold chain; split <;> rfl, by decide, fun hagree => ?_⟩
  have hposix : ((Posix.turn .default chain)^[27]
      (Posix.launch .default none .basic .bss [taskOf 0, taskOf 1, taskOf 1], [])).2[4]? = some 0 := by
    decide +kernel
  have hcortex : ((CortexM.turn .default 0x20000000 chain fun _ => 1)^[15]
      (CortexM.launch .default 0x20000000 none .basic .bss [taskOf 0, taskOf 1, taskOf 1],
        [])).2[4]? = some 2 := by
    decide +kernel
  obtain ⟨n, hn⟩ := (hagree 4 0).mp ⟨27, hposix⟩
  -- what is recorded stays recorded
  have hkeep : ∀ {l l' : List ℕ} {u : ℕ}, l <+: l' → l[4]? = some u → l'[4]? = some u := by
    rintro l _ u ⟨r, rfl⟩ hu
    rw [List.getElem?_append_left (List.getElem?_eq_some_iff.mp hu).1]
    exact hu
  rcases Nat.le_total 15 n with hle | hle
  · have htwo := hkeep (CortexM.prefix_turns _ hle) hcortex
    exact absurd (hn.symm.trans htwo) (by decide)
  · have hzero := hkeep (CortexM.prefix_turns _ hle) hn
    exact absurd (hzero.symm.trans hcortex) (by decide)

end HardRT
