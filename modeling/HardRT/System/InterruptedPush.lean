import HardRT.Lib.LevelQueue
import HardRT.Lib.Sections
import HardRT.System.Pieces

/-! # `rq_push` between interrupts

`rq_push` is three updates: it stores the id at the tail, advances the tail, increments the count. Where
`hrt__make_ready` is called by a kernel object it runs in a critical section. `hrt_yield` and
`hrt_create_task` call `rq_push` with interrupts enabled, and so does the wake loop of `hrt__tick_isr`,
which SysTick runs at a low priority; an interrupt between two updates may push to the same ring.

* `InterruptedPush.machine` — the machine: one call in pieces, a tick that suspends it, in pieces as well,
  and ISR operations at any moment.
* `push_lost` — a tick between the store and the advance of the tail overwrites the stored id, and an ISR
  inside the tick does the same.
* `rings_survive` — if no interrupt pushes to a ring that is being updated, the rings hold exactly what was
  pushed and not popped. -/

namespace HardRT

open Lib

namespace InterruptedPush

/-! ## The machine -/

/-- What can happen next. -/
inductive Action
  /-- `hrt_yield` of task `me`, up to its reschedule request. -/
  | yield (me : ℕ)
  /-- `hrt_create_task`. -/
  | create (a : TaskArgs)
  /-- `hrt__make_ready(id)` in a critical section. -/
  | makeReady (id : ℕ)
  /-- `hrt__tick_isr`. -/
  | tick
  /-- An ISR operation. -/
  | isr (op : Isr)
  /-- `hrt__pick_next_ready`. -/
  | pick
  deriving DecidableEq, Repr

/-- The actions as single steps. -/
def atomic (sz : Sizing) (port : Port) (k : Kernel) : Action → Kernel
  | .yield me => hrtYieldBody sz me k
  | .create a => (hrtCreateTask sz port a k).2
  | .makeReady id => hrtMakeReady sz id k
  | .tick => hrtTickIsr sz k
  | .isr op => (isrAction sz k op).2.1
  | .pick => (hrtPickNextReady sz k).2

/-- The part of an action that interrupts can cut. Nothing cuts a critical section. -/
def pieces (sz : Sizing) (k : Kernel) : Action → List Piece
  | .yield me => yieldPieces me k
  | .create a => createPieces sz a k
  | .tick => tickPieces sz
  | _ => []

/-- Who takes an action. -/
def level : Action → Level
  | .yield _ | .create _ | .makeReady _ | .pick => .thread
  | .tick => .handler
  | .isr _ => .interrupt

/-- **The machine.** Calls and picks begin while no call is open; the tick suspends an open call, and ISR
operations come at any moment, inside the tick too. -/
def machine (sz : Sizing) (port : Port) : Sectioned Kernel Action Piece Unit where
  atomic k a := some (atomic sz port k a)
  level := level
  opens k a := if pieces sz k a = [] then none else some (k, pieces sz k a)
  run := Piece.run sz port
  effect := Piece.effect sz port
  place _ := ()
  goes _ := true
  spares _ _ _ := False
  run_effect := complete_run
  opens_atomic := by
    intro k a k₀ ps h
    split_ifs at h with hne
    obtain ⟨rfl, rfl⟩ := Prod.mk.inj (Option.some.inj h)
    refine congrArg some (Eq.symm ?_)
    cases a with
    | yield me => exact complete_yieldPieces me
    | create a => exact complete_createPieces hne
    | tick => exact complete_tickPieces
    | _ => exact absurd rfl hne
  place_effect _ _ := rfl
  place_atomic _ _ := rfl
  spares_effect h := absurd h not_false
  spares_level h := absurd h not_false

/-- The kernel, the call that is open and the tick that suspends it. -/
abbrev State := Sectioned.State Kernel Piece Unit

/-- The pieces still to run: those of the tick and, behind it, those of the call. -/
def State.todo (x : State) : List Piece := x.handler ++ x.sections ()

/-! ## The record -/

/-- The pushes that got past the checks of `rq_push` and the entries that were popped, each with its
queue, oldest first. -/
structure PushLog where
  pushed : List (ℕ × ℕ)
  popped : List (ℕ × ℕ)
  deriving DecidableEq, Repr

/-- The task that the next piece pushes, if it is the call of `rq_push`. -/
def pushedNext : List Piece → Option ℕ
  | .push id :: _ => some id
  | _ => none

/-- What the next piece pushes. -/
def nextPush (sz : Sizing) (k : Kernel) (ps : List Piece) : List (ℕ × ℕ) :=
  (pushedNext ps).elim [] fun id => rqAccepted sz k (k.tcbs id).prio id

/-- The pushes of an ISR operation. -/
def isrPushes (sz : Sizing) (k : Kernel) (op : Isr) : List (ℕ × ℕ) :=
  (isrWoken sz k op).elim [] fun id => rqAccepted sz k (k.tcbs id).prio id

/-- The entry that a pick pops, from the first ring that is not empty. -/
def pickPops (sz : Sizing) (k : Kernel) : List (ℕ × ℕ) :=
  ((List.range sz.maxPrio).find? fun p => (k.rq p).count ≠ 0).toList.map fun p =>
    (p, (hrtPickNextReady sz k).1)

/-- **The record after an action.** -/
def record (sz : Sizing) (x : State) (b : Sectioned.Action Action) (g : PushLog) : PushLog :=
  match b with
  | .piece => { g with pushed := g.pushed ++ nextPush sz x.base (x.sections ()) }
  | .handlerPiece => { g with pushed := g.pushed ++ nextPush sz x.base x.handler }
  | .act (.makeReady id) =>
      { g with pushed := g.pushed ++ rqAccepted sz x.base (x.base.tcbs id).prio id }
  | .act (.isr op) => { g with pushed := g.pushed ++ isrPushes sz x.base op }
  | .act .pick => { g with popped := g.popped ++ pickPops sz x.base }
  | .act _ => g

/-! ## Rings that are being updated -/

/-- The ring that a piece is about to update, once the push has been accepted. -/
def updates : Piece → Option ℕ
  | .store p _ | .tail p | .count p => some p
  | _ => none

/-- The rings after the updates among the pieces `ps`. -/
def settled (sz : Sizing) : List Piece → (ℕ → RingBuffer ℕ) → ℕ → RingBuffer ℕ
  | [], rq => rq
  | c :: ps, rq =>
      settled sz ps ((updates c).elim rq fun p => Function.update rq p (c.onRing sz (rq p)))

/-- One of the pieces is about to update the ring of priority `q`. -/
def Touches (ps : List Piece) (q : ℕ) : Prop := ∃ c ∈ ps, updates c = some q

instance (ps : List Piece) (q : ℕ) : Decidable (Touches ps q) :=
  inferInstanceAs (Decidable (∃ c ∈ ps, _))

/-- **The clean steps**: neither the tick nor an ISR operation pushes to a ring that what it suspends is
updating. -/
def Clean (sz : Sizing) (x : State) : Sectioned.Action Action → Prop
  | .act (.isr op) => ∀ id ∈ isrWoken sz x.base op, ¬ Touches x.todo (x.base.tcbs id).prio
  | .handlerPiece => ∀ id ∈ pushedNext x.handler, ¬ Touches (x.sections ()) (x.base.tcbs id).prio
  | _ => True

instance (sz : Sizing) (x : State) : DecidablePred (Clean sz x)
  | .act (.isr _) | .handlerPiece => inferInstanceAs (Decidable (∀ _ ∈ _, _))
  | .piece | .act (.yield _) | .act (.create _) | .act (.makeReady _) | .act .tick | .act .pick =>
      instDecidableTrue

section Settled

variable {sz : Sizing} {port : Port} {rq : ℕ → RingBuffer ℕ} {ps qs : List Piece} {q : ℕ}

theorem settled_append (sz : Sizing) (ps qs : List Piece) (rq : ℕ → RingBuffer ℕ) :
    settled sz (ps ++ qs) rq = settled sz qs (settled sz ps rq) := by
  induction ps generalizing rq with
  | nil => rfl
  | cons c ps ih => exact ih _

/-- Pieces that update nothing. -/
theorem settled_of_forall (h : ∀ c ∈ ps, updates c = none) : settled sz ps rq = rq := by
  induction ps generalizing rq with
  | nil => rfl
  | cons c ps ih =>
      rw [settled, h c List.mem_cons_self]
      exact ih fun d hd => h d (List.mem_cons_of_mem _ hd)

theorem Touches.append : Touches (ps ++ qs) q ↔ Touches ps q ∨ Touches qs q := by
  simp only [Touches, List.mem_append]
  constructor
  · rintro ⟨c, hc | hc, hq⟩
    · exact Or.inl ⟨c, hc, hq⟩
    · exact Or.inr ⟨c, hc, hq⟩
  · rintro (⟨c, hc, hq⟩ | ⟨c, hc, hq⟩)
    · exact ⟨c, Or.inl hc, hq⟩
    · exact ⟨c, Or.inr hc, hq⟩

/-- **Replacing a ring that is not being updated**, before the updates or after them. -/
theorem settled_update (h : ¬ Touches ps q) (r : RingBuffer ℕ) :
    settled sz ps (Function.update rq q r) = Function.update (settled sz ps rq) q r := by
  induction ps generalizing rq with
  | nil => rfl
  | cons c ps ih =>
      have hps : ¬ Touches ps q := fun ⟨d, hd, hq⟩ => h ⟨d, List.mem_cons_of_mem _ hd, hq⟩
      cases hc : updates c with
      | none =>
          rw [settled, settled, hc]
          exact ih hps
      | some p =>
          have hpq : p ≠ q := fun heq => h ⟨c, List.mem_cons_self, heq ▸ hc⟩
          rw [settled, settled, hc, Option.elim, Option.elim, Function.update_of_ne hpq,
            Function.update_comm (Ne.symm hpq)]
          exact ih hps

/-- A ring that is not being updated is settled. -/
theorem settled_of_not_touches (h : ¬ Touches ps q) : settled sz ps rq q = rq q := by
  have hself : settled sz ps (Function.update rq q (rq q)) = _ := settled_update h (rq q)
  rw [Function.update_eq_self] at hself
  rw [hself, Function.update_self]

/-- The three updates that an accepted push brings. -/
theorem settled_push (p id : ℕ) (ps : List Piece) :
    settled sz (.store p id :: .tail p :: .count p :: ps) rq =
      settled sz ps (Function.update rq p ((rq p).put 256 sz.maxTasks (id % 256))) := by
  simp [settled, updates, Piece.onRing, storeId, advanceTail, incCount, RingBuffer.put]

/-- **Updates come first**: behind a piece that updates nothing there is none that does. -/
def Tidy : List Piece → Prop
  | [] => True
  | c :: ps => if updates c = none then ∀ d ∈ ps, updates d = none else Tidy ps

/-- Pieces that update nothing are tidy. -/
theorem Tidy.of_forall (h : ∀ c ∈ ps, updates c = none) : Tidy ps := by
  cases ps with
  | nil => trivial
  | cons c ps =>
      rw [Tidy, if_pos (h c List.mem_cons_self)]
      exact fun d hd => h d (List.mem_cons_of_mem _ hd)

end Settled

/-! ## The invariant -/

/-- **The books of the rings**: each ring is well formed and holds what was in it at first and was pushed,
less what was popped, in order. -/
def Books (sz : Sizing) (start : ℕ → List ℕ) (rq : ℕ → RingBuffer ℕ) (g : PushLog) : Prop :=
  ∀ p < sz.maxPrio, (rq p).WF sz.maxTasks ∧
    start p ++ entriesAt p g.pushed = entriesAt p g.popped ++ (rq p).toList sz.maxTasks

/-- **The invariant**: the books are in order once the updates that are still to come have been made, and
in either list the updates come first. -/
structure Inv (sz : Sizing) (start : ℕ → List ℕ) (x : State) (g : PushLog) : Prop where
  books : Books sz start (settled sz x.todo x.base.rq) g
  handler : Tidy x.handler
  thread : Tidy (x.sections ())

section Books

variable {sz : Sizing} {port : Port} {start : ℕ → List ℕ} {ps : List Piece} {k : Kernel} {g : PushLog}

/-- Nothing is pushed. -/
theorem Books.idle {rq : ℕ → RingBuffer ℕ} (h : Books sz start rq g) :
    Books sz start rq { g with pushed := g.pushed ++ [] } := by
  rw [List.append_nil]
  exact h

/-- **A push** to a ring that is not being updated. -/
theorem Books.push (h : Books sz start (settled sz ps k.rq) g) (hr : sz.Representable) {q : ℕ} (id : ℕ)
    (hq : ¬ Touches ps q) :
    Books sz start (settled sz ps (rqPush sz q id k).rq)
      { g with pushed := g.pushed ++ rqAccepted sz k q id } := by
  by_cases hacc : RqAccepts sz k q
  · intro p hp
    obtain ⟨hwf, hbook⟩ := h p hp
    rw [rqPush_of_accepts hacc, rqAccepted, if_pos hacc]
    show (settled sz ps (Function.update k.rq q _) p).WF _ ∧ _ = _ ++
      (settled sz ps (Function.update k.rq q _) p).toList _
    rw [settled_update hq, entriesAt_append, entriesAt_cons, ← List.append_assoc, hbook]
    by_cases hpq : p = q
    · subst hpq
      rw [settled_of_not_touches hq] at hwf ⊢
      rw [Function.update_self, if_pos rfl, RingBuffer.toList_put hwf hr.lt hacc.2]
      exact ⟨hwf.put hr.lt hacc.2 _, by simp⟩
    · rw [Function.update_of_ne hpq, if_neg hpq]
      exact ⟨hwf, by simp⟩
  · rw [rqPush_rq_of_not_accepts hacc, rqAccepted, if_neg hacc]
    exact h.idle

/-- `hrt__make_ready` of a task whose ring is not being updated. -/
theorem Books.makeReady (h : Books sz start (settled sz ps k.rq) g) (hr : sz.Representable) (id : ℕ)
    (hid : ¬ Touches ps (k.tcbs id).prio) :
    Books sz start (settled sz ps (hrtMakeReady sz id k).rq)
      { g with pushed := g.pushed ++ rqAccepted sz k (k.tcbs id).prio id } := by
  rw [hrtMakeReady_rq]
  exact h.push hr id hid

/-- An ISR operation pops the task it reports as woken from its FIFO and makes it ready. -/
theorem isr_woken (sz : Sizing) (k : Kernel) (op : Isr) :
    (isrWoken sz k op = none ∧ Quiet k (isrAction sz k op).2.1) ∨
    ∃ h k', isrWoken sz k op = some h ∧ Wakes sz op.waitQ h k k' ∧
      (isrAction sz k op).2.1 = k'.hrtPendContextSwitch := by
  have hcase : ∀ {w : WaitQ} {woken : Option ℕ} {k' : Kernel}, WakesAtMost sz w woken k k' →
      (woken = none ∧ Quiet k (pendIfWoken woken k')) ∨
      ∃ h k₁, woken = some h ∧ Wakes sz w h k k₁ ∧
        pendIfWoken woken k' = k₁.hrtPendContextSwitch := by
    rintro w woken k' (⟨rfl, hq⟩ | ⟨h, rfl, hw⟩)
    · exact Or.inl ⟨rfl, hq⟩
    · exact Or.inr ⟨h, k', rfl, hw, rfl⟩
  cases op with
  | semGive i => exact hcase (giveCommonCs_effect sz i k)
  | queueTrySend q item => exact hcase (hrtQueueTrySendCs_effect sz q item k)
  | queueTryRecv q => exact hcase (hrtQueueTryRecvCs_effect sz q k)

/-- **An ISR operation** that wakes nobody at a priority that is being updated. -/
theorem Books.isr (h : Books sz start (settled sz ps k.rq) g) (hr : sz.Representable) {op : Isr}
    (hclean : ∀ id ∈ isrWoken sz k op, ¬ Touches ps (k.tcbs id).prio) :
    Books sz start (settled sz ps (isrAction sz k op).2.1.rq)
      { g with pushed := g.pushed ++ isrPushes sz k op } := by
  rcases isr_woken sz k op with ⟨hn, hq⟩ | ⟨id, k', hid, ⟨k₁, hs, -, -, rfl⟩, heq⟩
  · rw [isrPushes, hn, hq.same.rq]
    exact h.idle
  · have hrq : Books sz start (settled sz ps k₁.rq) g := hs.rq ▸ h
    have hmake := hrq.makeReady hr id (by rw [hs.tcbs]; exact hclean id hid)
    have hacc : rqAccepted sz k₁ (k₁.tcbs id).prio id = rqAccepted sz k (k.tcbs id).prio id := by
      simp only [rqAccepted, hs.tcbs]
      exact if_congr (by simp only [RqAccepts, hs.rq]) rfl rfl
    rw [isrPushes, hid, heq, Option.elim, ← hacc]
    exact hmake

/-- **A pick**, while nothing is open, pops the entry it returns. -/
theorem Books.pick (h : Books sz start k.rq g) (hr : sz.Representable) :
    Books sz start (hrtPickNextReady sz k).2.rq
      { g with popped := g.popped ++ pickPops sz k } := by
  have hwf : ReadyWF sz k := fun p hp => (h p hp).1
  rcases pickNextReady_spec hr hwf with ⟨hempty, heq⟩ | ⟨q, id, rest, hq, hpre, hl, heq⟩
  · have hnone : pickPops sz k = [] := by
      have hfind : ((List.range sz.maxPrio).find? fun p => (k.rq p).count ≠ 0) = none := by
        refine List.find?_eq_none.mpr fun p hp => ?_
        simpa using RingBuffer.toList_eq_nil_iff.mp (hempty p (List.mem_range.mp hp))
      rw [pickPops, hfind]
      rfl
    rw [hnone, heq]
    intro p hp
    simpa using h p hp
  · have hpop : pickPops sz k = [(q, id)] := by
      have hfind : ((List.range sz.maxPrio).find? fun p => (k.rq p).count ≠ 0) = some q := by
        refine List.find?_range_eq_some.mpr ⟨by simpa using count_ne_zero_of_cons hl,
          List.mem_range.mpr hq, fun p hp => ?_⟩
        simpa using RingBuffer.toList_eq_nil_iff.mp (hpre p hp)
      rw [pickPops, hfind, heq]
      rfl
    rw [hpop, heq]
    intro p hp
    have hwf' := hwf.dropReady hr hl p hp
    refine ⟨hwf', ?_⟩
    have hlist : ((dropReady sz q k).rq p).toList sz.maxTasks =
        if p = q then rest else k.readyList sz p := readyList_dropReady (hwf q hq) hr hl p
    show _ = _ ++ ((dropReady sz q k).rq p).toList sz.maxTasks
    rw [hlist, (h p hp).2, entriesAt_append, entriesAt_cons]
    show entriesAt p g.popped ++ k.readyList sz p = _
    by_cases hpq : p = q
    · subst hpq
      simp [hl]
    · simp [hpq]

/-- A piece that is neither an update nor the call of `rq_push` leaves the rings alone and brings no
updates. -/
theorem run_rq (sz : Sizing) (port : Port) (k : Kernel) {c : Piece} (hu : updates c = none)
    (hp : ∀ id, c ≠ .push id) :
    (c.run sz port k).1.rq = k.rq ∧ ∀ d ∈ (c.run sz port k).2, updates d = none := by
  cases c with
  | push id => exact absurd rfl (hp id)
  | store p id => exact absurd hu (by simp [updates])
  | tail p => exact absurd hu (by simp [updates])
  | count p => exact absurd hu (by simp [updates])
  | fill a id => exact ⟨clearAndFill_rq port a id k, by simp [Piece.run]⟩
  | wake is trigger =>
      cases is with
      | nil => simp [Piece.run, updates]
      | cons i is =>
          simp only [Piece.run]
          split_ifs <;> simp [updates]
  | charge trigger =>
      obtain ⟨-, -, -, -, -, -, -, -, hrq⟩ := chargeSlice_frame sz k
      refine ⟨hrq, ?_⟩
      simp only [Piece.run]
      split_ifs <;> simp [updates]
  | _ => exact ⟨rfl, by simp [Piece.run]⟩

/-- **The next piece of a list** with the pieces `qs` of what it suspends behind it: the rings come one
update closer to where they will settle, or a push is accepted on a ring that nobody is updating. -/
theorem Books.run (port : Port) {c : Piece} (qs : List Piece)
    (h : Books sz start (settled sz (c :: ps ++ qs) k.rq) g) (hr : sz.Representable)
    (htidy : Tidy (c :: ps))
    (hclean : ∀ id ∈ pushedNext (c :: ps), ¬ Touches qs (k.tcbs id).prio) :
    Books sz start (settled sz ((c.run sz port k).2 ++ ps ++ qs) (c.run sz port k).1.rq)
        { g with pushed := g.pushed ++ nextPush sz k (c :: ps) } ∧
      Tidy ((c.run sz port k).2 ++ ps) := by
  rw [Tidy] at htidy
  split_ifs at htidy with hu
  · by_cases hpush : ∃ id, c = .push id
    · obtain ⟨id, rfl⟩ := hpush
      have hoff : ¬ Touches (ps ++ qs) (k.tcbs id).prio := by
        rw [Touches.append]
        rintro (⟨d, hd, hq⟩ | hq)
        · exact absurd ((htidy d hd).symm.trans hq) (by simp)
        · exact hclean id rfl hq
      have h : Books sz start (settled sz (ps ++ qs) k.rq) g := h
      have hbooks := h.push hr id hoff
      by_cases hacc : RqAccepts sz k (k.tcbs id).prio
      · have hrun : (Piece.push id).run sz port k = (k, [.store (k.tcbs id).prio id,
            .tail (k.tcbs id).prio, .count (k.tcbs id).prio]) := by
          simp only [Piece.run, if_neg (Nat.not_le.mpr hacc.1), if_neg (Nat.not_le.mpr hacc.2)]
        rw [rqPush_of_accepts hacc] at hbooks
        rw [hrun]
        refine ⟨?_, ?_⟩
        · show Books sz start (settled sz (_ :: _ :: _ :: (ps ++ qs)) k.rq) _
          rw [settled_push]
          exact hbooks
        · simpa [Tidy, updates] using Tidy.of_forall htidy
      · have hrun : ((Piece.push id).run sz port k).1.rq = k.rq ∧
            ((Piece.push id).run sz port k).2 = [] := by
          simp only [Piece.run]
          split_ifs with h1 h2
          · exact ⟨rfl, rfl⟩
          · exact ⟨rfl, rfl⟩
          · exact absurd ⟨Nat.not_le.mp h1, Nat.not_le.mp h2⟩ hacc
        rw [rqPush_rq_of_not_accepts hacc] at hbooks
        rw [hrun.1, hrun.2]
        exact ⟨hbooks, .of_forall htidy⟩
    · -- neither a push nor an update
      have hne : ∀ id, c ≠ .push id := fun id hid => hpush ⟨id, hid⟩
      obtain ⟨hrq, hnew⟩ := run_rq sz port k hu hne
      have hnext : nextPush sz k (c :: ps) = [] := by
        cases c <;> first | rfl | exact absurd rfl (hne _)
      simp only [List.cons_append, settled, hu, Option.elim] at h
      rw [hnext, hrq, List.append_assoc, settled_append, settled_of_forall hnew]
      refine ⟨h.idle, .of_forall fun d hd => ?_⟩
      rcases List.mem_append.mp hd with hd | hd
      · exact hnew d hd
      · exact htidy d hd
  · -- an update: the rings settle where they would have
    cases c with
    | store p id => exact ⟨h.idle, htidy⟩
    | tail p => exact ⟨h.idle, htidy⟩
    | count p => exact ⟨h.idle, htidy⟩
    | _ => exact absurd rfl hu

end Books

/-! ## The result -/

section Results

variable {sz : Sizing} {port : Port} {start : ℕ → List ℕ} {x x' : State} {g : PushLog}

/-- No body has updates before its pushes are accepted. -/
theorem updates_pieces (sz : Sizing) (k : Kernel) (a : Action) :
    ∀ c ∈ pieces sz k a, updates c = none := by
  cases a with
  | yield me =>
      simp only [pieces, yieldPieces]
      split_ifs <;> simp [updates]
  | create a =>
      simp only [pieces, createPieces]
      cases createdSlot sz k a <;> simp [updates]
  | tick => simp [pieces, tickPieces, updates]
  | _ => simp [pieces]

/-- A call that has no pieces to run pushes nothing, unless it is one in a critical section. -/
theorem atomic_rq {k : Kernel} {a : Action} (hne : pieces sz k a = []) (hlev : level a = .thread)
    (hmake : ∀ id, a ≠ .makeReady id) (hpick : a ≠ .pick) : (atomic sz port k a).rq = k.rq := by
  cases a with
  | yield me =>
      simp only [pieces, yieldPieces] at hne
      split_ifs at hne with hst
      simp only [atomic, hrtYieldBody, if_neg hst]
  | create a =>
      have hnone : createdSlot sz k a = none := by
        cases hslot : createdSlot sz k a with
        | none => rfl
        | some id => simp [pieces, createPieces, hslot] at hne
      rw [← hrtCreateTask_slot sz port] at hnone
      rcases hrtCreateTask_cases sz port a k with ⟨e, heq⟩ | ⟨id, sp, e, -, -, heq⟩
      · simp only [atomic, heq]
        rfl
      · rw [heq] at hnone
        exact absurd hnone (by simp)
  | makeReady id => exact absurd rfl (hmake id)
  | tick => exact absurd hlev (by simp [level])
  | isr op => exact absurd hlev (by simp [level])
  | pick => exact absurd rfl hpick

/-- An action that opens a section. -/
theorem opens_eq_some {k k₀ : Kernel} {a : Action} {ps : List Piece}
    (h : (machine sz port).opens k a = some (k₀, ps)) :
    pieces sz k a ≠ [] ∧ k = k₀ ∧ pieces sz k a = ps := by
  simp only [machine] at h
  split_ifs at h with hne
  obtain ⟨rfl, rfl⟩ := Prod.mk.inj (Option.some.inj h)
  exact ⟨hne, rfl, rfl⟩

/-- An action that opens none. -/
theorem opens_eq_none {k : Kernel} {a : Action} (h : (machine sz port).opens k a = none) :
    pieces sz k a = [] := by
  simp only [machine] at h
  split_ifs at h with hne
  exact hne

/-- **The thread begins an action** while nothing is open. -/
theorem Inv.thread_act (h : Inv sz start x g) (port : Port) (hr : sz.Representable) {a : Action}
    (hlev : level a = .thread) (hh : x.handler = []) (ht : x.sections () = []) :
    Books sz start (if pieces sz x.base a = [] then (atomic sz port x.base a).rq else x.base.rq)
      (record sz x (.act a) g) := by
  have hbooks := h.books
  rw [State.todo, hh, ht] at hbooks
  have h0 : Books sz start x.base.rq g := hbooks
  cases a with
  | makeReady id =>
      have h0 : Books sz start (settled sz [] x.base.rq) g := h0
      exact h0.makeReady hr id fun ⟨_, hc, _⟩ => absurd hc List.not_mem_nil
  | pick => exact h0.pick hr
  | tick => exact absurd hlev (by simp [level])
  | isr op => exact absurd hlev (by simp [level])
  | yield me =>
      split_ifs with hne
      · rw [atomic_rq hne hlev (by simp) (by simp)]
        exact h0
      · exact h0
  | create a =>
      split_ifs with hne
      · rw [atomic_rq hne hlev (by simp) (by simp)]
        exact h0
      · exact h0

/-- The tick is the only handler, and always runs in pieces. -/
theorem eq_tick {a : Action} (hlev : (machine sz port).level a = .handler) : a = .tick := by
  cases a <;> simp [machine, level] at hlev ⊢

/-- **Every clean step keeps the invariant.** -/
theorem Inv.step (h : Inv sz start x g) (hr : sz.Representable) {b : Sectioned.Action Action}
    (hclean : Clean sz x b) (hstep : (machine sz port).step x b = some x') :
    Inv sz start x' (record sz x b g) := by
  cases Sectioned.Moves.of_step hstep with
  | @begins a _ _ hlev hfree hhere hopen =>
      have hnone := updates_pieces sz x.base a
      have hbooks := h.thread_act port hr hlev hfree hhere
      obtain ⟨hne, rfl, rfl⟩ := opens_eq_some hopen
      rw [if_neg hne] at hbooks
      -- the body opens before its push is accepted, so nothing has to settle yet
      refine ⟨?_, h.handler, .of_forall hnone⟩
      show Books sz start (settled sz (x.handler ++ pieces sz x.base a) x.base.rq) _
      rw [hfree, List.nil_append, settled_of_forall hnone]
      exact hbooks
  | @acts a s hlev hfree hhere hopen hs =>
      have hbooks := h.thread_act port hr hlev hfree hhere
      rw [if_pos (opens_eq_none hopen)] at hbooks
      obtain rfl : atomic sz port x.base a = s := Option.some.inj hs
      refine ⟨?_, h.handler, h.thread⟩
      show Books sz start (settled sz (x.handler ++ x.sections ()) (atomic sz port x.base a).rq) _
      rw [hfree, show x.sections () = [] from hhere]
      exact hbooks
  | enters hlev hfree hopen =>
      obtain rfl := eq_tick hlev
      have hnone := updates_pieces sz x.base .tick
      obtain ⟨-, rfl, rfl⟩ := opens_eq_some hopen
      refine ⟨?_, .of_forall hnone, h.thread⟩
      have hbooks := h.books
      rw [State.todo, hfree] at hbooks
      show Books sz start (settled sz (pieces sz x.base .tick ++ x.sections ()) x.base.rq) _
      rw [settled_append, settled_of_forall hnone]
      exact hbooks
  | handles hlev _ hopen =>
      obtain rfl := eq_tick hlev
      exact absurd (opens_eq_none hopen) (by simp [pieces, tickPieces])
  | @interrupt a s hlev hs =>
      obtain ⟨op, rfl⟩ : ∃ op, a = .isr op := by cases a <;> simp [machine, level] at hlev ⊢
      obtain rfl : atomic sz port x.base (.isr op) = s := Option.some.inj hs
      exact ⟨h.books.isr hr hclean, h.handler, h.thread⟩
  | @switch a _ hlev => cases a <;> exact absurd hlev (by simp [machine, level])
  | piece hfree hhere =>
      have hlist : x.sections () = _ :: _ := hhere
      obtain ⟨hbooks, htidy, hthread⟩ := h
      rw [State.todo, hfree, hlist] at hbooks
      rw [hlist] at hthread
      -- nothing is suspended behind the call
      have hrun := Books.run port [] (by simpa using hbooks) hr hthread
        fun id _ => by rintro ⟨d, hd, -⟩; simp at hd
      rw [List.append_nil] at hrun
      refine ⟨?_, htidy, hrun.2⟩
      show Books sz start (settled sz (x.handler ++ (_ ++ _)) _)
        { g with pushed := g.pushed ++ nextPush sz x.base (x.sections ()) }
      rw [hfree, hlist]
      exact hrun.1
  | handlerPiece hhand =>
      obtain ⟨hbooks, htidy, hthread⟩ := h
      simp only [Clean, hhand] at hclean
      rw [State.todo, hhand] at hbooks
      rw [hhand] at htidy
      -- the call that the tick suspends may be in the middle of its updates
      obtain ⟨hnext, htidy'⟩ := Books.run port (x.sections ()) hbooks hr htidy hclean
      refine ⟨?_, htidy', hthread⟩
      show Books sz start _ { g with pushed := g.pushed ++ nextPush sz x.base x.handler }
      rw [hhand]
      exact hnext

/-- **Ready-queue updates survive interruption** as long as no interrupt pushes to a ring that what it
suspends is updating: neither a tick inside an unprotected `rq_push`, nor an ISR operation inside one or
inside the tick. From any kernel whose rings are well formed, whenever no call and no tick is open, each
ring satisfies `tail = (head + count) % HARDRT_MAX_TASKS` and holds, in order, what was in it at first and
was pushed since, less what was popped. -/
theorem rings_survive (hr : sz.Representable) {k : Kernel} (hwf : ReadyWF sz k)
    {bs : List (Sectioned.Action Action)}
    (hrun : exec (machine sz port).step (Sectioned.closed k) bs = some x)
    (hclean : Along (machine sz port).step (Clean sz) (Sectioned.closed k) bs) (hdone : x.todo = []) :
    ∀ p < sz.maxPrio,
      (x.base.rq p).tail = ((x.base.rq p).head + (x.base.rq p).count) % sz.maxTasks ∧
      k.readyList sz p ++ entriesAt p
          (track (machine sz port).step (record sz) (Sectioned.closed k) ⟨[], []⟩ bs).pushed =
        entriesAt p
          (track (machine sz port).step (record sz) (Sectioned.closed k) ⟨[], []⟩ bs).popped ++
          x.base.readyList sz p := by
  have hstart : Inv sz (k.readyList sz) (Sectioned.closed k) ⟨[], []⟩ := by
    refine ⟨fun p hp => ⟨hwf p hp, ?_⟩, trivial, trivial⟩
    simp only [entriesAt_nil, List.append_nil, List.nil_append]
    rfl
  have hstep : ∀ x b x' g, Inv sz (k.readyList sz) x g → Clean sz x b →
      (machine sz port).step x b = some x' → Inv sz (k.readyList sz) x' (record sz x b g) :=
    fun _ _ _ _ h ha hx => h.step hr ha hx
  have hbooks := (track_invariant hstep hstart hclean hrun).books
  rw [hdone] at hbooks
  exact fun p hp => ⟨(hbooks p hp).1.tail_eq, (hbooks p hp).2⟩

end Results

/-! ## A sleeper that is due at the next tick -/

/-- Task 0, of priority `p`, sleeps until the next tick, and task 1, of priority 1, is on the CPU: both
were created, task 0 was picked and called `hrt_sleep(1)`, and task 1 was picked. -/
def sleeperDue (p : ℕ) : Kernel :=
  let k := (Sys.boot .default .posix none .basic .bss).k
  let k := (hrtCreateTask .default .posix ⟨1, 0, 0x20001000, 64, some ⟨p, 0⟩⟩ k).2
  let k := (hrtCreateTask .default .posix ⟨1, 0, 0x20002000, 64, some ⟨1, 0⟩⟩ k).2
  let k := { (hrtPickNextReady .default k).2 with current := some 0 }
  let k := hrtSleepBody 0 1 k
  { (hrtPickNextReady .default k).2 with current := some 1 }

/-- `hrt_yield` of task 1 with a tick between the store and the advance of the tail. The tick wakes
task 0. -/
def tickInsideYield : List (Sectioned.Action Action) :=
  [.act (.yield 1), .piece, .piece, .piece] ++ .act .tick :: List.replicate 19 .handlerPiece ++
    [.piece, .piece]

/-- A sleeper of another priority is woken inside the push, and both entries are there: the first of
them is then picked. -/
theorem rings_survive_other_priority :
    ∃ x, exec (machine .default .posix).step (Sectioned.closed (sleeperDue 0))
        (tickInsideYield ++ [.act .pick]) = some x ∧
      x.base.readyList .default 0 = [] ∧ x.base.readyList .default 1 = [1] ∧
      ∀ p < Sizing.default.maxPrio,
        (x.base.rq p).tail = ((x.base.rq p).head + (x.base.rq p).count) % Sizing.default.maxTasks ∧
        (sleeperDue 0).readyList .default p ++ entriesAt p (track (machine .default .posix).step
            (record .default) (Sectioned.closed (sleeperDue 0)) ⟨[], []⟩
            (tickInsideYield ++ [.act .pick])).pushed =
          entriesAt p (track (machine .default .posix).step (record .default)
            (Sectioned.closed (sleeperDue 0)) ⟨[], []⟩ (tickInsideYield ++ [.act .pick])).popped ++
            x.base.readyList .default p := by
  have heval : ((exec (machine .default .posix).step (Sectioned.closed (sleeperDue 0))
      (tickInsideYield ++ [.act .pick])).map fun x =>
        (State.todo x, x.base.readyList .default 0, x.base.readyList .default 1)) =
      some ([], [], [1]) := by
    decide +kernel
  obtain ⟨x, hx, hv⟩ := Option.map_eq_some_iff.mp heval
  obtain ⟨hdone, hv⟩ := Prod.mk.inj hv
  obtain ⟨h0, h1⟩ := Prod.mk.inj hv
  have hr : Sizing.default.Representable := by decide
  have hwf : ReadyWF .default (sleeperDue 0) := by decide +kernel
  exact ⟨x, hx, h0, h1, rings_survive hr hwf hx (by decide +kernel) hdone⟩

/-- Task 0 waits for semaphore 0, and task 1, of the same priority, sleeps until the next tick. -/
def waiterAndSleeper : Kernel :=
  let k := (Sys.boot .default .posix none .basic .bss).k
  let k := (hrtCreateTask .default .posix ⟨1, 0, 0x20001000, 64, some ⟨1, 0⟩⟩ k).2
  let k := (hrtCreateTask .default .posix ⟨1, 0, 0x20002000, 64, some ⟨1, 0⟩⟩ k).2
  let k := { (hrtPickNextReady .default k).2 with current := some 0 }
  let k := (hrtSemTakeCs .default 0 0 k).2
  let k := { (hrtPickNextReady .default k).2 with current := some 1 }
  hrtSleepBody 1 1 k

/-- The tick wakes task 1; an ISR gives the semaphore between the store and the advance of the tail. -/
def giveInsideTick : List (Sectioned.Action Action) :=
  .act .tick :: List.replicate 7 .handlerPiece ++ .act (.isr (.semGive 0)) ::
    List.replicate 12 .handlerPiece

/-- **A push can be lost.** A tick inside the yield of task 1 wakes task 0, of the priority being pushed:
its id is stored over that of task 1, and both calls advance the tail and the count. Ids 1 and 0 were
pushed and none popped; the queue holds 0 twice. In the same way an ISR that wakes task 0 inside the tick
that wakes task 1. -/
theorem push_lost :
    (∃ x, exec (machine .default .posix).step (Sectioned.closed (sleeperDue 1)) tickInsideYield = some x ∧
      State.todo x = [] ∧ (sleeperDue 1).readyList .default 1 = [] ∧
      track (machine .default .posix).step (record .default) (Sectioned.closed (sleeperDue 1)) ⟨[], []⟩
        tickInsideYield = ⟨[(1, 1), (1, 0)], []⟩ ∧
      x.base.readyList .default 1 = [0, 0]) ∧
    ∃ x, exec (machine .default .posix).step (Sectioned.closed waiterAndSleeper) giveInsideTick = some x ∧
      State.todo x = [] ∧ waiterAndSleeper.readyList .default 1 = [] ∧
      track (machine .default .posix).step (record .default) (Sectioned.closed waiterAndSleeper) ⟨[], []⟩
        giveInsideTick = ⟨[(1, 1), (1, 0)], []⟩ ∧
      x.base.readyList .default 1 = [0, 0] := by
  have hyield : ((exec (machine .default .posix).step (Sectioned.closed (sleeperDue 1))
      tickInsideYield).map fun x => (State.todo x, x.base.readyList .default 1)) =
        some ([], [0, 0]) := by
    decide +kernel
  have htick : ((exec (machine .default .posix).step (Sectioned.closed waiterAndSleeper)
      giveInsideTick).map fun x => (State.todo x, x.base.readyList .default 1)) = some ([], [0, 0]) := by
    decide +kernel
  constructor
  · obtain ⟨x, hx, hv⟩ := Option.map_eq_some_iff.mp hyield
    obtain ⟨hdone, h1⟩ := Prod.mk.inj hv
    exact ⟨x, hx, hdone, by decide +kernel, by decide +kernel, h1⟩
  · obtain ⟨x, hx, hv⟩ := Option.map_eq_some_iff.mp htick
    obtain ⟨hdone, h1⟩ := Prod.mk.inj hv
    exact ⟨x, hx, hdone, by decide +kernel, by decide +kernel, h1⟩

end InterruptedPush

end HardRT
