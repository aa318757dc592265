import HardRT.System.Ids

/-! # What a step of a port can be

The ports differ in who moves when, not in what a step can do: `main` makes a call, the current task acts
or comes back from a switch, an interrupt or a tick arrives, or none of these; and then the scheduler makes
some of its moves. Conditions on what the steps of a port do, and invariants that no scheduling touches,
are stated and proved here once for both ports.

* `PortAct` — what a step does besides scheduling.
* `PortStep` — what a step with a given act makes of the system.
* `PortStep.knownIds` — the ids in circulation stay those of slots with a context.
* `PortStep.idle_free` — nobody comes to live in the idle slot, if creations spare it. -/

namespace HardRT

open Lib

/-- What a step of a port does besides scheduling. -/
inductive PortAct
  /-- `main` makes a call. -/
  | main (c : MainCall)
  /-- The current task takes its next action, issuing `c` if it is between calls. -/
  | task (c : Call)
  /-- An ISR runs. -/
  | isr (op : Isr)
  /-- A tick. -/
  | tick
  /-- Nothing of the kind: the scheduler moves, or a task that has exited is left behind. -/
  | sched
  deriving DecidableEq, Repr

/-- The move queues somebody. -/
def SchedOp.queues : SchedOp → Bool
  | .schedule _ | .entry => true
  | .pend | .unpend | .pick | .setCurrent _ => false

/-- The system after some moves of the scheduler. -/
def Sys.scheduled (sz : Sizing) (s : Sys) (ops : List SchedOp) : Sys :=
  { s with k := ops.foldl (SchedOp.run sz) s.k }

/-- **The system after an act**, before the scheduler moves. -/
inductive PortAct.Leads (sz : Sizing) (port : Port) (s : Sys) : PortAct → Sys → Prop
  | main (c : MainCall) : Leads sz port s (.main c) (s.main sz port c)
  /-- The current task runs. -/
  | run {t : ℕ} {c : Call} {o : Outcome} (hcur : s.k.current = some t)
      (ho : nextAction sz port t c s.k (s.conts t) = some o) : Leads sz port s (.task c) (s.apply t o)
  /-- `hrt_port_yield_to_scheduler` returns, at once or later. -/
  | land {t : ℕ} {c : Call} {a : After} (hcur : s.k.current = some t) (ha : s.conts t = .hop a) :
      Leads sz port s (.task c) (s.land t a)
  | isr (op : Isr) : Leads sz port s (.isr op) (s.isr sz op)
  | tick : Leads sz port s .tick (s.tickIsr sz)
  | idle : Leads sz port s .sched s
  /-- A task that has exited is left behind. -/
  | left {t : ℕ} (a : After) (ht : s.conts t ≠ .none) : Leads sz port s .sched (s.land t a)

/-- **A step of a port**: an act, and then moves of the scheduler. -/
def PortStep (sz : Sizing) (port : Port) (s : Sys) (u : PortAct) (s' : Sys) : Prop :=
  ∃ s₁ ops, u.Leads sz port s s₁ ∧ s' = s₁.scheduled sz ops

/-- **Every creation** has arguments, and is made in a kernel, that satisfy `P`. -/
def PortAct.CreatesWhen (P : Kernel → TaskArgs → Prop) (s : Sys) : PortAct → Prop
  | .main (.createTask a) => P s.k a
  | .task c => ∀ t ∈ s.k.current, s.conts t = .user → ∀ a ∈ c.creates, P s.k a
  | _ => True

instance (P : Kernel → TaskArgs → Prop) [∀ k a, Decidable (P k a)] (s : Sys) :
    DecidablePred (PortAct.CreatesWhen P s)
  | .main (.createTask a) => inferInstanceAs (Decidable (P s.k a))
  | .task _ => inferInstanceAs (Decidable (∀ _ ∈ _, _))
  | .main (.setPolicy _) | .main (.setDefaultTimeslice _) | .isr _ | .tick | .sched => instDecidableTrue

theorem PortAct.CreatesWhen.imp {P Q : Kernel → TaskArgs → Prop} (hPQ : ∀ k a, P k a → Q k a) {s : Sys}
    {u : PortAct} (h : u.CreatesWhen P s) : u.CreatesWhen Q s := by
  cases u with
  | main c =>
      cases c with
      | createTask a => exact hPQ _ _ h
      | setPolicy p => trivial
      | setDefaultTimeslice n => trivial
  | task c => exact fun t ht hu a ha => hPQ _ _ (h t ht hu a ha)
  | isr op => trivial
  | tick => trivial
  | sched => trivial

section Steps

variable {sz : Sizing} {port : Port} {s s' : Sys} {u : PortAct} {A : ℕ → Prop}

/-- **What every move of the scheduler keeps** holds after any number of them. -/
theorem Sys.scheduled_induction {I : Kernel → Prop} (hop : ∀ k op, I k → I (SchedOp.run sz k op))
    {ops : List SchedOp} (h : I s.k) : I (s.scheduled sz ops).k := by
  show I (ops.foldl (SchedOp.run sz) s.k)
  generalize s.k = k at h
  induction ops generalizing k with
  | nil => exact h
  | cons op ops ih => exact ih _ (hop k op h)

/-- A move that queues nobody raises no error. -/
theorem SchedOp.run_error {op : SchedOp} (h : op.queues = false) (k : Kernel) :
    (op.run sz k).error = k.error := by
  cases op with
  | pend => rfl
  | unpend => rfl
  | pick =>
      obtain ⟨rq, hpick⟩ := hrtPickNextReady_frame sz k
      show (hrtPickNextReady sz k).2.error = k.error
      rw [hpick]
  | setCurrent t => rfl
  | schedule oldSp => exact absurd h (by simp [SchedOp.queues])
  | entry => exact absurd h (by simp [SchedOp.queues])

/-- Nor do several of them. -/
theorem Sys.scheduled_error {ops : List SchedOp} (h : ∀ op ∈ ops, op.queues = false) :
    (s.scheduled sz ops).k.error = s.k.error := by
  show (ops.foldl (SchedOp.run sz) s.k).error = s.k.error
  generalize s.k = k
  induction ops generalizing k with
  | nil => rfl
  | cons op ops ih =>
      rw [List.foldl_cons, ih fun op' hop => h op' (List.mem_cons_of_mem _ hop)]
      exact SchedOp.run_error (h op List.mem_cons_self) k

/-- **A move of the scheduler** puts no new id into circulation. -/
theorem KnownIds.sched {k : Kernel} (h : KnownIds sz k A) (hr : sz.Representable) (op : SchedOp) :
    KnownIds sz (op.run sz k) A := by
  cases op with
  | pend => exact h.of_eq rfl (by simp [SchedOp.run]) h.used
  | unpend => exact h.of_eq rfl (Kernel.SameObjects.ring ⟨rfl, rfl, rfl⟩) h.used
  | schedule oldSp => exact (h.schedule hr oldSp).1
  | pick => exact (h.pick hr).1
  | setCurrent t => exact h.of_eq rfl (Kernel.SameObjects.ring ⟨rfl, rfl, rfl⟩) h.used
  | entry =>
      -- only a ready task is queued there, and that one is known
      by_cases hready : ∀ t, k.current = some t → k.stateOf t = .ready
      · exact h.entry hr fun t ht => h.ready_lt (hready t ht)
      · push Not at hready
        obtain ⟨t, ht, hst⟩ := hready
        show KnownIds sz (hrtOnSchedulerEntry sz k) A
        rwa [hrtOnSchedulerEntry_of_not_ready sz ht hst]

/-- Whoever has a context keeps it. -/
theorem PortStep.conts_ne_none (h : PortStep sz port s u s') {t : ℕ} (ht : s.conts t ≠ .none) :
    s'.conts t ≠ .none := by
  obtain ⟨s₁, ops, hlead, rfl⟩ := h
  show s₁.conts t ≠ .none
  cases hlead with
  | main c => exact Sys.main_conts_ne_none c ht
  | run hcur ho => exact Sys.apply_conts_ne_none ho ht
  | land hcur ha => exact Sys.land_conts_ne_none ht
  | isr op => exact ht
  | tick => exact ht
  | idle => exact ht
  | left a _ => exact Sys.land_conts_ne_none ht

/-- **The ids in circulation** stay those of slots with a context. -/
theorem PortStep.knownIds (h : PortStep sz port s u s') (hr : sz.Representable)
    (hk : KnownIds sz s.k fun id => s.conts id ≠ .none) :
    KnownIds sz s'.k fun id => s'.conts id ≠ .none := by
  obtain ⟨s₁, ops, hlead, rfl⟩ := h
  have hk₁ : KnownIds sz s₁.k fun id => s₁.conts id ≠ .none := by
    cases hlead with
    | main c => exact hk.main hr port c
    | run hcur ho => exact hk.apply hr ho
    | land hcur ha => exact hk.land (by simp [ha])
    | isr op => exact hk.isr hr op
    | tick => exact hk.tick hr
    | idle => exact hk
    | left a ht => exact hk.land ht
  exact Sys.scheduled_induction (I := fun k => KnownIds sz k fun id => s₁.conts id ≠ .none)
    (fun k op hk => hk.sched hr op) hk₁

/-- **Nobody comes to live in the idle slot**, if creations spare it. -/
theorem PortStep.idle_free (h : PortStep sz port s u s') (hc : u.CreatesWhen (SparesIdle sz) s)
    (hfree : s.conts sz.idleId = .none) : s'.conts sz.idleId = .none := by
  obtain ⟨s₁, ops, hlead, rfl⟩ := h
  show s₁.conts sz.idleId = .none
  -- whoever acts has a context
  have hne : ∀ {t : ℕ}, s.conts t ≠ .none → sz.idleId ≠ t := by
    rintro t ht rfl
    exact ht hfree
  cases hlead with
  | main c =>
      cases c with
      | createTask a => exact Sys.spawned_eq_none.mpr ⟨hfree, SparesIdle.create_ne hc _⟩
      | setPolicy p => exact hfree
      | setDefaultTimeslice n => exact hfree
  | @run t c o hcur ho =>
      -- the new context, if there is one, is that of the slot that the creation has filled
      have ht : s.conts t ≠ .none := by
        intro hn
        rw [hn] at ho
        exact absurd ho (by simp [nextAction])
      rw [Sys.apply_conts_of_ne s (hne ht)]
      refine Sys.spawned_eq_none.mpr ⟨hfree, fun hid => ?_⟩
      obtain ⟨a, hu, rfl, hnew⟩ := (taskEffect ho).spawn_eq hid
      exact (hc t hcur hu a rfl).create_ne _ hnew
  | land hcur ha => exact (Sys.land_conts_of_ne s (hne (by simp [ha])) _).trans hfree
  | isr op => exact hfree
  | tick => exact hfree
  | idle => exact hfree
  | left a ht => exact (Sys.land_conts_of_ne s (hne ht) a).trans hfree

end Steps

end HardRT
