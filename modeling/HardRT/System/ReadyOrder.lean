import HardRT.Core.ReadyOrder
import HardRT.System.Ids

/-! # How the ready queues move

Every action of a task and every ISR operation appends at most one entry to the ready queues, so does
every iteration of the wake loop of a tick, and only `hrt__pick_next_ready` takes one out. A step of a
port is thus a short sequence of such moves, and what the moves do to the order of the entries is the
same on both ports.

* `Gains sz k k'` — at most one entry was appended; `KnownIds.task_gains`, `KnownIds.isr_gains`,
  `KnownIds.main_gains` say so of the actions.
* `Move`, `Moves sz k ms k'` — the moves that lead from `k` to `k'`.
* `Moving` — a machine with the moves of each of its steps; `Moving.track` is the rule by which a record
  of the moves keeps an invariant along its runs. -/

namespace HardRT

open Lib

/-! ## At most one entry -/

/-- At most one entry was appended. -/
def Gains (sz : Sizing) (k k' : Kernel) : Prop := ∃ p id, AppendsOne sz k k' p id

/-- A list of appended entries, whatever it is. -/
theorem Gains.exists {sz : Sizing} {k k' : Kernel} (h : Gains sz k k') : ∃ l, Appends sz k k' l := by
  obtain ⟨p, id, h | h⟩ := h
  · exact ⟨_, h⟩
  · exact ⟨_, h⟩

/-- The queues are the same. -/
theorem Gains.of_rq {sz : Sizing} {k k' : Kernel} (hwf : ReadyWF sz k) (hrq : k'.rq = k.rq) :
    Gains sz k k' :=
  ⟨0, 0, Or.inl (.of_rq hwf hrq)⟩

/-- Only the queues matter. -/
theorem Gains.congr {sz : Sizing} {k k₁ k' : Kernel} (h : Gains sz k k₁) (hrq : k'.rq = k₁.rq) :
    Gains sz k k' := by
  obtain ⟨p, id, h⟩ := h
  exact ⟨p, id, h.congr hrq⟩

/-- `hrt_create_task`. -/
theorem Gains.create {sz : Sizing} {k : Kernel} (hwf : ReadyWF sz k) (hr : sz.Representable)
    (port : Port) (a : TaskArgs) : Gains sz k (hrtCreateTask sz port a k).2 := by
  rcases hrtCreateTask_cases sz port a k with ⟨e, he⟩ | ⟨id, sp, e, hlt, -, he⟩
  · rw [he]
    exact .of_rq hwf rfl
  · rw [he]
    have h := AppendsOne.push
      (k := { k with tcbs := Function.update k.tcbs id (a.readyTcb k sp), error := e }) hwf hr hlt a.prio
    exact ⟨_, _, h.of_rq rfl⟩

section Known

variable {sz : Sizing} {k k' : Kernel} {A : ℕ → Prop}

/-- A waking. -/
theorem KnownIds.wake_gains (h : KnownIds sz k A) (hr : sz.Representable) {w : WaitQ} {id : ℕ}
    (hw : Wakes sz w id k k') : Gains sz k k' := by
  have hlt := h.lt id (h.of_wakes hr hw)
  obtain ⟨k₁, hs, -, -, rfl⟩ := hw
  have hone := AppendsOne.makeReady (k := k₁) (fun p hp => hs.rq ▸ h.ready.wf p hp) hr hlt
  exact ⟨_, _, hone.of_rq hs.rq⟩

/-- **An action of a known task.** -/
theorem KnownIds.task_gains (h : KnownIds sz k A) (hr : sz.Representable) {port : Port} {t : ℕ}
    (ht : A t) {call : Call} {c : Cont} {o : Outcome} (heff : TaskEffect sz port t k call c o) :
    Gains sz k o.k := by
  have hwf := h.ready.wf
  cases heff with
  | quiet hq _ _ => exact .of_rq hwf hq.same.rq
  | request => exact .of_rq hwf rfl
  | yield _ => exact ⟨_, _, AppendsOne.yieldBody hwf hr (h.lt t ht)⟩
  | sleep => exact .of_rq hwf rfl
  | delete _ _ => exact .of_rq hwf rfl
  | park _ hp => exact .of_rq hwf hp.rq
  | wake _ _ hw => exact h.wake_gains hr hw
  | wakeOnRecheck _ hw => exact h.wake_gains hr hw
  | create _ => exact .create hwf hr port _
  | policy _ => exact .of_rq hwf rfl

/-- **An ISR operation.** -/
theorem KnownIds.isr_gains (h : KnownIds sz k A) (hr : sz.Representable) (op : Isr) :
    Gains sz k (isrAction sz k op).2.1 := by
  rcases isrEffect sz k op with hq | ⟨id, k', hw, heq⟩
  · exact .of_rq h.ready.wf hq.same.rq
  · rw [heq]
    exact (h.wake_gains hr hw).congr rfl

/-- A call of `main`. -/
theorem KnownIds.main_gains {s : Sys} (h : KnownIds sz s.k A) (hr : sz.Representable) (port : Port)
    (c : MainCall) : Gains sz s.k (s.main sz port c).k := by
  cases c with
  | createTask a => exact .create h.ready.wf hr port a
  | setPolicy p => exact .of_rq h.ready.wf rfl
  | setDefaultTimeslice n => exact .of_rq h.ready.wf rfl

/-- **The outgoing half of `hrt__schedule`.** -/
theorem KnownIds.saveOutgoing_gains (h : KnownIds sz k A) (hr : sz.Representable) (oldSp : ℕ) :
    Gains sz k (saveOutgoing sz oldSp { k with pend := false }) := by
  by_cases hready : ∃ t, k.current = some t ∧ k.stateOf t = .ready
  · obtain ⟨t, hcur, hst⟩ := hready
    have hone := AppendsOne.saveOutgoing (k := { k with pend := false }) h.ready.wf hr oldSp
      (fun _ => h.ready_lt hst) hcur
    exact ⟨_, _, hone.of_rq rfl⟩
  · exact .of_rq h.ready.wf (saveOutgoing_rq fun t hcur hst => hready ⟨t, hcur, hst⟩)

end Known

/-! ## Moves -/

/-- **A move of the ready queues.** -/
inductive Move
  /-- An operation that appends at most one entry takes the kernel from `k` to `k'`. -/
  | gain (k k' : Kernel)
  /-- `hrt__pick_next_ready` in `k`. -/
  | pick (k : Kernel)

/-- **The moves `ms` lead from `k` to `k'`**, as far as the ready queues go. -/
inductive Moves (sz : Sizing) : Kernel → List Move → Kernel → Prop
  | stay {k k' : Kernel} (hrq : k'.rq = k.rq) : Moves sz k [] k'
  | gain {k k₀ k₁ k' : Kernel} {ms : List Move} (hrq : k₀.rq = k.rq) (h : Gains sz k₀ k₁)
      (rest : Moves sz k₁ ms k') : Moves sz k (.gain k₀ k₁ :: ms) k'
  | pick {k k₀ k' : Kernel} {ms : List Move} (hrq : k₀.rq = k.rq)
      (rest : Moves sz (hrtPickNextReady sz k₀).2 ms k') : Moves sz k (.pick k₀ :: ms) k'

/-- One operation. -/
theorem Moves.one {sz : Sizing} {k k' : Kernel} (h : Gains sz k k') : Moves sz k [.gain k k'] k' :=
  .gain rfl h (.stay rfl)

/-- Only the queues matter. -/
theorem Moves.congr {sz : Sizing} {k k₁ k' : Kernel} {ms : List Move} (h : Moves sz k ms k₁)
    (hrq : k'.rq = k₁.rq) : Moves sz k ms k' := by
  induction h with
  | stay h => exact .stay (hrq.trans h)
  | gain h hg _ ih => exact .gain h hg (ih hrq)
  | pick h _ ih => exact .pick h (ih hrq)

/-- The moves of the wake loop over the slots `is`, one for each. -/
def wakeMoves (sz : Sizing) : List ℕ → Kernel × Bool → List Move
  | [], _ => []
  | i :: is, s => .gain s.1 (wakeOne sz s i).1 :: wakeMoves sz is (wakeOne sz s i)

/-- **The moves of a tick.** -/
def tickMoves (sz : Sizing) (k : Kernel) : List Move :=
  wakeMoves sz (List.range sz.maxTasks) (hrtIncTick k, false)

/-- A tick moves the queues by its wake loop only. -/
theorem Moves.tick {sz : Sizing} {k : Kernel} (hwf : ReadyWF sz k) (hr : sz.Representable) :
    Moves sz k (tickMoves sz k) (hrtTickIsr sz k) := by
  have hloop : ∀ (is : List ℕ) (s : Kernel × Bool) (k₀ : Kernel), s.1.rq = k₀.rq → ReadyWF sz s.1 →
      (∀ i ∈ is, i < sz.maxTasks) → Moves sz k₀ (wakeMoves sz is s) (is.foldl (wakeOne sz) s).1 := by
    intro is
    induction is with
    | nil => exact fun s k₀ hrq _ _ => .stay hrq
    | cons i is ih =>
        intro s k₀ hrq hs his
        have hone := AppendsOne.wakeOne hs hr (his i List.mem_cons_self)
        exact .gain hrq ⟨_, _, hone⟩ (ih _ _ rfl hone.wf fun j hj => his j (List.mem_cons_of_mem _ hj))
  exact (hloop _ (hrtIncTick k, false) k rfl hwf fun i hi => List.mem_range.mp hi).congr
    (hrtTickIsr_rq sz k)

/-! ## Machines that move the queues -/

section Moving

variable {σ α γ : Type*}

/-- **A machine and the moves of its steps**: `moves s a` are those of action `a` in state `s`. -/
structure Moving (sz : Sizing) (step : σ → α → Option σ) (kernel : σ → Kernel)
    (moves : σ → α → List Move) (I : σ → Prop) : Prop where
  /-- The invariant is kept. -/
  inv : ∀ s a s', I s → step s a = some s' → I s'
  /-- It makes the queues well formed. -/
  wf : ∀ s, I s → ReadyWF sz (kernel s)
  /-- The moves are those of the step. -/
  moves : ∀ s a s', I s → step s a = some s' → Moves sz (kernel s) (moves s a) (kernel s')

variable {sz : Sizing} {step : σ → α → Option σ} {kernel : σ → Kernel} {moves : σ → α → List Move}
  {I : σ → Prop}

/-- **A record of the moves**, kept along a run. -/
def trackMoves (step : σ → α → Option σ) (moves : σ → α → List Move) (upd : γ → Move → γ) (s : σ)
    (g : γ) (as : List α) : γ :=
  track step (fun s a g => (moves s a).foldl upd g) s g as

/-- Every move of the step satisfies `C`. -/
def MovesAll (moves : σ → α → List Move) (C : Move → Prop) (s : σ) (a : α) : Prop :=
  ∀ m ∈ moves s a, C m

instance (moves : σ → α → List Move) (C : Move → Prop) [DecidablePred C] (s : σ) :
    DecidablePred (MovesAll moves C s) :=
  fun _ => inferInstanceAs (Decidable (∀ _ ∈ _, _))

/-- **Record rule.** What holds of the kernel and a record, and is kept by every single move that
satisfies `C`, holds after every run whose moves all do. -/
theorem Moving.track (h : Moving sz step kernel moves I) (hr : sz.Representable) {C : Move → Prop}
    {J : Kernel → γ → Prop} {upd : γ → Move → γ}
    (hrq : ∀ k k' g, k'.rq = k.rq → J k g → J k' g)
    (hgain : ∀ k k' g, Gains sz k k' → C (.gain k k') → J k g → J k' (upd g (.gain k k')))
    (hpick : ∀ k g, ReadyWF sz k → J k g → J (hrtPickNextReady sz k).2 (upd g (.pick k)))
    {s s' : σ} {g : γ} {as : List α} (hI : I s) (hJ : J (kernel s) g)
    (hall : Along step (MovesAll moves C) s as) (hrun : exec step s as = some s') :
    J (kernel s') (trackMoves step moves upd s g as) := by
  -- one step: move by move
  have hmoves : ∀ {k ms k'}, Moves sz k ms k' → ∀ g, ReadyWF sz k → (∀ m ∈ ms, C m) → J k g →
      J k' (ms.foldl upd g) := by
    intro k ms k' hm
    induction hm with
    | stay h => exact fun g _ _ hg => hrq _ _ g h hg
    | gain h hg _ ih =>
        intro g _ hC hJ
        obtain ⟨l, hl⟩ := hg.exists
        exact ih _ hl.wf (fun m hm => hC m (List.mem_cons_of_mem _ hm))
          (hgain _ _ g hg (hC _ List.mem_cons_self) (hrq _ _ g h hJ))
    | pick h _ ih =>
        intro g hwf hC hJ
        have hwf' : ReadyWF sz _ := fun p hp => h ▸ hwf p hp
        exact ih _ (hwf'.pick hr) (fun m hm => hC m (List.mem_cons_of_mem _ hm))
          (hpick _ g hwf' (hrq _ _ g h hJ))
  refine (track_invariant (I := fun s g => I s ∧ J (kernel s) g) (fun s a s' g hs ha hstep => ?_)
    ⟨hI, hJ⟩ hall hrun).2
  exact ⟨h.inv s a s' hs.1 hstep, hmoves (h.moves s a s' hs.1 hstep) g (h.wf s hs.1) ha hs.2⟩

end Moving

end HardRT
