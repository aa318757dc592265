import HardRT.Protocol.QueueChannel

/-! # Queue calls: integrity and wakeups

What tasks see of a message queue, over every interleaving of its six operations.

* `transfers t log` — the items task `t` has moved since it entered its latest call; `TransferInv` ties
  it to the task's continuation, so that every call that returns has moved exactly the item it reports.
* `queue_integrity` — the log of a queue is that of a bounded FIFO, call by call.
* `queue_no_lost_wakeup` — no state has work, a parked task and nobody on the way. -/

namespace HardRT

open Lib

/-! ## Transfers of a call -/

/-- Extend the record of task `t`'s transfers by one event: a new call starts it afresh. -/
def transferStep (t : ℕ) (acc : List Event) : Event → List Event
  | .call u _ => if u = t then [] else acc
  | .put q src bytes => if src = some t then acc ++ [.put q src bytes] else acc
  | .got q src bytes => if src = some t then acc ++ [.got q src bytes] else acc
  | _ => acc

/-- The items task `t` has put or got since it entered its latest call. -/
def transfers (t : ℕ) (log : List Event) : List Event := log.foldl (transferStep t) []

theorem transfers_append (t : ℕ) (l es : List Event) :
    transfers t (l ++ es) = es.foldl (transferStep t) (transfers t l) := by
  simp [transfers]

/-- **What a return says about the transfers of its call**: a blocking send or receive has moved exactly
one item and reports success; a non-blocking one reports success exactly if it moved one. `size` gives
the item size of each queue. -/
def RetRule (size : ℕ → ℕ) (t : ℕ) (tr : List Event) : Call → ℤ → Prop
  | .queueSend q item, code => code = 0 ∧ tr = [.put q (some t) (itemBytes (size q) item)]
  | .queueTrySend q item, code =>
      (code = 0 ∧ tr = [.put q (some t) (itemBytes (size q) item)]) ∨ (code = -1 ∧ tr = [])
  | .queueRecv q, code => code = 0 ∧ ∃ bytes, tr = [.got q (some t) bytes]
  | .queueTryRecv q, code =>
      (code = 0 ∧ ∃ bytes, tr = [.got q (some t) bytes]) ∨ (code = -1 ∧ tr = [])
  | _, _ => True

/-- Every return of a log obeys `RetRule`. -/
def ReturnsOk (size : ℕ → ℕ) (l : List Event) : Event → Prop
  | .ret t c code => RetRule size t (transfers t l) c code
  | _ => True

/-- What the rest of a call needs of the transfers made so far. -/
def AfterRule (size : ℕ → ℕ) (t : ℕ) (tr : List Event) : After → Prop
  | .ret c code => RetRule size t tr c code
  | .sendAgain _ _ => tr = []
  | .recvAgain _ => tr = []

/-- What a continuation needs of the transfers made so far. -/
def ContRule (size : ℕ → ℕ) (t : ℕ) (tr : List Event) : Cont → Prop
  | .yield a | .pend a | .hop a | .resumed a => AfterRule size t tr a
  | .queueSend _ _ | .queueRecv _ => tr = []
  | _ => True

/-- The events of an action of `t` that can change anybody's transfers are `t`'s own. -/
def OwnEvents (t : ℕ) (evs : List Event) : Prop :=
  ∀ u, u ≠ t → ∀ acc, evs.foldl (transferStep u) acc = acc

section Action

variable {sz : Sizing} {port : Port} {t : ℕ} {k : Kernel} {call : Call} {c : Cont} {o : Outcome}
  {size : ℕ → ℕ} {l : List Event}

/-- One action of a task: its returns obey the rule, its new continuation fits its transfers, and it
touches nobody else's. -/
def ActionOk (size : ℕ → ℕ) (t : ℕ) (l : List Event) (o : Outcome) : Prop :=
  AlwaysFrom (ReturnsOk size) l o.evs ∧ ContRule size t (transfers t (l ++ o.evs)) o.cont ∧
  OwnEvents t o.evs

/-! ### Actions that move nothing -/

/-- The calls that may move an item. -/
def Call.movesItem : Call → Prop
  | .queueTrySend _ _ | .queueSend _ _ | .queueTryRecv _ | .queueRecv _ => True
  | _ => False

/-- An event that enters no call, is no task's transfer and returns from no call that may make one. -/
def Event.offQueue : Event → Prop
  | .call _ _ => False
  | .put _ src _ | .got _ src _ => src = none
  | .ret _ c _ => ¬ c.movesItem
  | _ => True

/-- Such an event is in no record. -/
theorem Event.offQueue.step_eq {e : Event} (h : e.offQueue) (u : ℕ) (acc : List Event) :
    transferStep u acc e = acc := by
  cases e with
  | call => exact h.elim
  | put q src bytes => exact if_neg fun hsrc => absurd (hsrc.symm.trans h) (by simp)
  | got q src bytes => exact if_neg fun hsrc => absurd (hsrc.symm.trans h) (by simp)
  | _ => rfl

/-- Such an event reports nothing about transfers. -/
theorem Event.offQueue.returnsOk {e : Event} (h : e.offQueue) (l : List Event) :
    ReturnsOk size l e := by
  cases e with
  | ret u c code => cases c <;> first | trivial | exact absurd trivial h
  | _ => trivial

/-- Events that move nothing leave every record as it is. -/
theorem foldl_transferStep_of_offQueue {es : List Event} (h : ∀ e ∈ es, e.offQueue) (u : ℕ)
    (acc : List Event) : es.foldl (transferStep u) acc = acc := by
  induction es generalizing acc with
  | nil => rfl
  | cons e es ih =>
      rw [List.foldl_cons, (h e List.mem_cons_self).step_eq]
      exact ih (fun e' he' => h e' (List.mem_cons_of_mem _ he')) acc

/-- **An action that moves nothing** and goes on in a way that fits the transfers made before. -/
theorem ActionOk.off (hevs : ∀ e ∈ o.evs, e.offQueue) (hcont : ContRule size t (transfers t l) o.cont) :
    ActionOk size t l o := by
  refine ⟨alwaysFrom_of_forall (fun e he => (hevs e he).returnsOk) l, ?_,
    fun u _ => foldl_transferStep_of_offQueue hevs u⟩
  rwa [transfers_append, foldl_transferStep_of_offQueue hevs]

/-! ### Actions that move an item -/

/-- Event `e` is a transfer of task `t`. -/
def Event.MovedBy (t : ℕ) (e : Event) : Prop :=
  ∃ q bytes, e = .put q (some t) bytes ∨ e = .got q (some t) bytes

theorem Event.movedBy_put (t q : ℕ) (bytes : List UInt8) : Event.MovedBy t (.put q (some t) bytes) :=
  ⟨q, bytes, Or.inl rfl⟩

theorem Event.movedBy_got (t q : ℕ) (bytes : List UInt8) : Event.MovedBy t (.got q (some t) bytes) :=
  ⟨q, bytes, Or.inr rfl⟩

/-- A transfer is recorded for the task that makes it, and for no other. -/
theorem Event.MovedBy.step_eq {e : Event} (h : e.MovedBy t) (u : ℕ) (acc : List Event) :
    transferStep u acc e = if u = t then acc ++ [e] else acc := by
  obtain ⟨q, bytes, rfl | rfl⟩ := h
  all_goals
    show (if some t = some u then _ else _) = _
    simp only [Option.some.injEq, eq_comm]

/-- **An action that moves one item**, the first of its call: it wakes whom it wakes, and then either
gives way before the call returns or returns at once, with a code that reports the item. -/
theorem ActionOk.moved {e : Event} (he : e.MovedBy t) (ws : List Event) (hws : ∀ e ∈ ws, e.offQueue)
    (htr : transfers t l = []) {code : ℤ} (hrule : RetRule size t [e] call code) (k : Kernel) :
    ActionOk size t l ⟨k, .yield (.ret call code), e :: ws, none⟩ ∧
    ActionOk size t l ⟨k, .user, e :: (ws ++ [.ret t call code]), none⟩ := by
  have hrec : transfers t (l ++ e :: ws) = [e] := by
    rw [transfers_append, List.foldl_cons, he.step_eq, if_pos rfl, htr,
      foldl_transferStep_of_offQueue hws]
    rfl
  have hothers : ∀ u, u ≠ t → ∀ acc, (e :: ws).foldl (transferStep u) acc = acc := by
    intro u hu acc
    rw [List.foldl_cons, he.step_eq, if_neg hu, foldl_transferStep_of_offQueue hws]
  have hevs : AlwaysFrom (ReturnsOk size) l (e :: ws) := by
    refine ⟨?_, alwaysFrom_of_forall (fun e he => (hws e he).returnsOk) _⟩
    obtain ⟨q, bytes, rfl | rfl⟩ := he
    all_goals trivial
  refine ⟨⟨hevs, ?_, hothers⟩, ⟨?_, trivial, fun u hu acc => ?_⟩⟩
  · rw [hrec]
    exact hrule
  · rw [← List.cons_append]
    refine alwaysFrom_append.mpr ⟨hevs, ?_, trivial⟩
    show RetRule size t (transfers t (l ++ e :: ws)) call code
    rw [hrec]
    exact hrule
  · rw [← List.cons_append, List.foldl_append, hothers u hu]
    rfl

/-- A send that stored its item returns 0. -/
theorem retRule_put (t : ℕ) (hsize : ∀ q, size q = (k.queues q).itemSize) (q : ℕ) (item : List UInt8) :
    RetRule size t [.put q (some t) (itemBytes (k.queues q).itemSize item)] (.queueSend q item) 0 :=
  ⟨rfl, by rw [hsize]⟩

/-- A receive that took an item returns 0. -/
theorem retRule_got (size : ℕ → ℕ) (t q : ℕ) (bytes : List UInt8) :
    RetRule size t [.got q (some t) bytes] (.queueRecv q) 0 :=
  ⟨rfl, bytes, rfl⟩

/-! ### Every action -/

theorem sendAttempt_ok (hsize : ∀ q, size q = (k.queues q).itemSize) {q : ℕ} {item : List UInt8}
    (htr : transfers t l = []) : ActionOk size t l (sendAttempt sz t q item k) := by
  have hrule := retRule_put t hsize q item
  unfold sendAttempt
  simp only
  split
  · split
    · exact (ActionOk.moved (Event.movedBy_put t q _) _ (by simp [Event.offQueue]) htr hrule _).1
    · exact (ActionOk.moved (Event.movedBy_put t q _) [] (by simp) htr hrule _).2
  · exact .off (by simp) htr

theorem recvAttempt_ok {q : ℕ} (htr : transfers t l = []) :
    ActionOk size t l (recvAttempt sz t q k) := by
  unfold recvAttempt
  simp only
  split
  · split
    · exact (ActionOk.moved (Event.movedBy_got t q _) _ (by simp [Event.offQueue]) htr
        (retRule_got size t q _) _).1
    · exact (ActionOk.moved (Event.movedBy_got t q _) [] (by simp) htr (retRule_got size t q _) _).2
  · exact .off (by simp) htr

/-- A call that is not about a queue moves nothing. -/
theorem issue_offQueue (sz : Sizing) (port : Port) (t : ℕ) (k : Kernel) (size : ℕ → ℕ)
    (hcall : ¬ call.movesItem) :
    (∀ e ∈ (issue sz port t k call).evs, e.offQueue) ∧
    ∀ tr, ContRule size t tr (issue sz port t k call).cont := by
  cases call with
  | queueTrySend q item => exact absurd trivial hcall
  | queueSend q item => exact absurd trivial hcall
  | queueTryRecv q => exact absurd trivial hcall
  | queueRecv q => exact absurd trivial hcall
  | yield => exact ⟨by simp [issue], fun tr => trivial⟩
  | sleep ms => exact ⟨by simp [issue], fun tr => trivial⟩
  | _ =>
      simp only [issue, giveEvents]
      repeat' split
      all_goals exact ⟨by simp [Event.offQueue, Call.movesItem], fun tr => trivial⟩

/-- The first action of a call, with no transfers made yet. -/
theorem issue_ok (sz : Sizing) (port : Port) (call : Call)
    (hsize : ∀ q, size q = (k.queues q).itemSize) (htr : transfers t l = []) :
    ActionOk size t l (issue sz port t k call) := by
  have hoff : ¬ call.movesItem → ActionOk size t l (issue sz port t k call) := fun hcall =>
    .off (issue_offQueue sz port t k size hcall).1 ((issue_offQueue sz port t k size hcall).2 _)
  cases call with
  | queueTrySend q item =>
      by_cases hlt : (k.queues q).count < (k.queues q).capacity
      · have hrule : RetRule size t [.put q (some t) (itemBytes (k.queues q).itemSize item)]
            (.queueTrySend q item) 0 := Or.inl (retRule_put t hsize q item)
        simp only [issue, hrtQueueTrySendCs_of_lt hlt, if_true]
        split
        · exact (ActionOk.moved (Event.movedBy_put t q _) _ (by simp [Event.offQueue]) htr hrule _).1
        · exact (ActionOk.moved (Event.movedBy_put t q _) [] (by simp) htr hrule _).2
      · simp only [issue, hrtQueueTrySendCs_of_full (Nat.le_of_not_lt hlt)]
        exact ⟨⟨Or.inr ⟨rfl, htr⟩, trivial⟩, trivial, fun u _ acc => rfl⟩
  | queueSend q item => exact sendAttempt_ok hsize htr
  | queueTryRecv q =>
      by_cases h0 : (k.queues q).count = 0
      · simp only [issue, hrtQueueTryRecvCs_of_empty h0]
        exact ⟨⟨Or.inr ⟨rfl, htr⟩, trivial⟩, trivial, fun u _ acc => rfl⟩
      · have hrule : ∀ bytes, RetRule size t [.got q (some t) bytes] (.queueTryRecv q) 0 :=
          fun bytes => Or.inl (retRule_got size t q bytes)
        simp only [issue, hrtQueueTryRecvCs_of_pos h0, if_true]
        split
        · exact (ActionOk.moved (Event.movedBy_got t q _) _ (by simp [Event.offQueue]) htr
            (hrule _) _).1
        · exact (ActionOk.moved (Event.movedBy_got t q _) [] (by simp) htr (hrule _) _).2
  | queueRecv q => exact recvAttempt_ok htr
  | _ => exact hoff not_false

/-- The second critical section of `hrt_queue_send`. -/
theorem queueSendAction_ok (hsize : ∀ q, size q = (k.queues q).itemSize) {q : ℕ} (hQ : (k.queues q).WF)
    {item : List UInt8} (htr : transfers t l = []) :
    ActionOk size t l (queueSendAction sz t q item k) := by
  by_cases hlt : (k.queues q).count < (k.queues q).capacity
  · have hcode := (hQ.enqueue hlt item).2.2.1
    rw [queueSendAction, hrtQueueSendCs, if_pos hlt]
    simp only [hcode]
    refine (ActionOk.moved (Event.movedBy_put t q _) _ ?_ htr (retRule_put t hsize q item) _).2
    cases (wakeRx sz q (k.setQueue q (enqueueCs item (k.queues q)).2)).1 <;>
      simp [rxWokenEvent, Event.offQueue]
  · rw [queueSendAction, hrtQueueSendCs, if_neg hlt]
    exact .off (by simp [Event.offQueue]) htr

/-- The second critical section of `hrt_queue_recv`. -/
theorem queueRecvAction_ok {q : ℕ} (hQ : (k.queues q).WF) (htr : transfers t l = []) :
    ActionOk size t l (queueRecvAction sz t q k) := by
  by_cases h0 : (k.queues q).count = 0
  · rw [queueRecvAction, hrtQueueRecvCs, if_neg (not_not.mpr h0)]
    exact .off (by simp [Event.offQueue]) htr
  · have hcode := (hQ.dequeue h0).2.2.1
    rw [queueRecvAction, hrtQueueRecvCs, if_pos h0]
    simp only [hcode]
    refine (ActionOk.moved (Event.movedBy_got t q _) _ ?_ htr (retRule_got size t q _) _).2
    cases (wakeTx sz q (k.setQueue q (dequeueCs (k.queues q)).2.2)).1 <;>
      simp [txWokenEvent, Event.offQueue]

/-- **Every action of a task** keeps its transfers and its continuation in step. -/
theorem task_ok (hsize : ∀ q, size q = (k.queues q).itemSize) (hQ : ∀ q, (k.queues q).WF)
    (htr : ContRule size t (transfers t l) c) (h : nextAction sz port t call k c = some o) :
    ActionOk size t l o := by
  cases c with
  | none => exact absurd h (by simp [nextAction])
  | hop a => exact absurd h (by simp [nextAction])
  | user =>
      obtain rfl := Option.some.inj h
      have hnil : transfers t (l ++ [.call t call]) = [] := by
        simp [transfers_append, transferStep]
      obtain ⟨hret, hcont, hown⟩ := issue_ok sz port call hsize hnil
      refine ⟨⟨trivial, hret⟩, ?_, fun u hu acc => ?_⟩
      · rwa [List.append_assoc] at hcont
      · show List.foldl (transferStep u) (if t = u then [] else acc) _ = acc
        rw [if_neg (Ne.symm hu)]
        exact hown u hu acc
  | yield a =>
      obtain rfl := Option.some.inj h
      exact .off (by simp) htr
  | pend a =>
      obtain rfl := Option.some.inj h
      exact .off (by simp) htr
  | resumed a =>
      obtain rfl := Option.some.inj h
      cases a with
      | ret c' code => exact ⟨⟨htr, trivial⟩, trivial, fun u _ acc => rfl⟩
      | sendAgain q item => exact sendAttempt_ok hsize htr
      | recvAgain q => exact recvAttempt_ok htr
  | semTake i =>
      obtain rfl := Option.some.inj h
      simp only [semTakeAction]
      split <;> exact .off (by simp [Event.offQueue, Call.movesItem]) trivial
  | mutexLock i =>
      obtain rfl := Option.some.inj h
      simp only [mutexLockAction]
      split <;> exact .off (by simp [Event.offQueue, Call.movesItem]) trivial
  | queueSend q item =>
      obtain rfl := Option.some.inj h
      exact queueSendAction_ok hsize (hQ q) htr
  | queueRecv q =>
      obtain rfl := Option.some.inj h
      exact queueRecvAction_ok (hQ q) htr

end Action

/-! ## Transfers along a run -/

/-- **The transfer invariant**: every task's transfers fit its continuation and every return so far was
right. -/
structure TransferInv (size : ℕ → ℕ) (s : Sys) : Prop where
  conts : ∀ t, ContRule size t (transfers t s.log) (s.conts t)
  returns : Always (ReturnsOk size) s.log

section Run

variable {sz : Sizing} {port : Port} {size : ℕ → ℕ} {s s' : Sys}

/-- A fresh context has nothing to account for. -/
theorem ContRule.spawned {t : ℕ} {tr : List Event} {id : Option ℕ}
    (h : ContRule size t tr (s.conts t)) : ContRule size t tr (s.spawned id t) := by
  rcases s.spawned_cases id t with hs | ⟨-, hs⟩
  · rwa [hs]
  · rw [hs]
    exact trivial

/-- An ISR neither returns from a call nor makes a transfer of a task. -/
theorem isr_offQueue (sz : Sizing) (k : Kernel) (op : Isr) :
    ∀ e ∈ (isrAction sz k op).2.2, e.offQueue := by
  cases op with
  | semGive i =>
      simp only [isrAction, giveEvents]
      repeat' split
      all_goals simp [Event.offQueue]
  | queueTrySend q item =>
      simp only [isrAction]
      split
      · cases (hrtQueueTrySendFromIsrCs sz q item k).2.1 <;> simp [rxWokenEvent, Event.offQueue]
      · simp
  | queueTryRecv q =>
      simp only [isrAction]
      split
      · cases (hrtQueueTryRecvFromIsrCs sz q k).2.2.1 <;> simp [txWokenEvent, Event.offQueue]
      · simp

/-- **Every step keeps the transfer invariant.** -/
theorem TransferInv.step (h : TransferInv size s) (hsize : ∀ q, size q = (s.k.queues q).itemSize)
    (hQ : ∀ q, (s.k.queues q).WF) {a : Interleave.Action}
    (hstep : Interleave.step sz port s a = some s') : TransferInv size s' := by
  rcases Interleave.step_cases hstep with ⟨t, c, o, -, -, ho, rfl⟩ | ⟨t, c, x, -, hx, rfl⟩ |
    ⟨op, -, rfl⟩ | ⟨-, hlog, id, hconts⟩
  · obtain ⟨hret, hcont, hown⟩ :=
      task_ok (k := (s.setCurrent t).k) hsize hQ (h.conts t) ho
    refine ⟨fun u => ?_, always_append.mpr ⟨h.returns, hret⟩⟩
    by_cases hu : u = t
    · rw [hu, Sys.apply_conts_self]
      exact hcont
    · rw [Sys.apply_conts_of_ne _ hu]
      show ContRule size u (transfers u (s.log ++ o.evs)) _
      rw [transfers_append, hown u hu]
      exact (h.conts u).spawned
  · refine ⟨fun u => ?_, h.returns⟩
    by_cases hu : u = t
    · have hc := h.conts t
      rw [hx] at hc
      rw [hu, Sys.land_conts_self]
      exact hc
    · rw [Sys.land_conts_of_ne _ hu]
      exact h.conts u
  · have hoff := isr_offQueue sz s.k op
    refine ⟨fun u => ?_, always_append.mpr
      ⟨h.returns, alwaysFrom_of_forall (fun e he => (hoff e he).returnsOk) _⟩⟩
    show ContRule size u (transfers u (s.log ++ _)) _
    rw [transfers_append, foldl_transferStep_of_offQueue hoff]
    exact h.conts u
  · refine ⟨fun u => ?_, by rw [hlog]; exact h.returns⟩
    rw [hlog, hconts]
    exact (h.conts u).spawned

end Run

/-! ## The results -/

section Results

variable {sz : Sizing} {port : Port} {cfg : Option KernelConfig} {objs : ObjectSpecs} {mem : Kernel}
  {as : List Interleave.Action} {s : Sys}

/-- The transfer invariant holds in every reachable state. -/
theorem transferInv_of_run (hr : sz.Representable)
    (hrun : exec (Interleave.step sz port) (Sys.boot sz port cfg objs mem) as = some s) :
    TransferInv (fun q => (objs.queue q).itemSize) s := by
  -- prefixes of the run are runs, so the queue facts are available before each step
  suffices hgen : ∀ (bs : List Interleave.Action) (s : Sys),
      exec (Interleave.step sz port) (Sys.boot sz port cfg objs mem) bs = some s →
      TransferInv (fun q => (objs.queue q).itemSize) s from hgen as s hrun
  intro bs
  induction bs using List.reverseRecOn with
  | nil =>
      intro s hs
      obtain rfl := Option.some.inj hs
      exact ⟨fun t => trivial, always_nil⟩
  | append_singleton bs b ih =>
      intro s hs
      obtain ⟨m, hm, hstep⟩ := exec_concat.mp hs
      have hqueue := queue_trace hr hm
      exact (ih m hm).step (fun q => (hqueue q).2.2.symm) (fun q => (hqueue q).2.1) hstep

/-- The events of queue `q` in a log. -/
def queueLog (q : ℕ) (log : List Event) : List (ChannelEvent ℕ (List UInt8)) :=
  log.filterMap (Event.channel q)

/-- **Queue data integrity.** In every reachable state: the items received are a prefix of the items
sent, the rest is what the ring holds, at most the capacity, and the next slots to read and write are
slots of the storage; every queue call that returned
had moved exactly the items its return value says; a non-blocking operation fails exactly on a full
(empty) queue, and then changes nothing at all. -/
theorem queue_integrity (hr : sz.Representable)
    (hrun : exec (Interleave.step sz port) (Sys.boot sz port cfg objs mem) as = some s) (q : ℕ) :
    (Channel.gots (queueLog q s.log) <+: Channel.puts (queueLog q s.log) ∧
      Channel.puts (queueLog q s.log) =
        Channel.gots (queueLog q s.log) ++ (s.k.queues q).contents ∧
      (s.k.queues q).contents.length = (s.k.queues q).count ∧
      (s.k.queues q).count ≤ (objs.queue q).capacity ∧
      (s.k.queues q).head < (objs.queue q).capacity ∧
      (s.k.queues q).tail < (objs.queue q).capacity) ∧
    (∀ l₁ t c code l₂, s.log = l₁ ++ .ret t c code :: l₂ →
      RetRule (fun q => (objs.queue q).itemSize) t (transfers t l₁) c code) ∧
    (∀ item, ((hrtQueueTrySendCs sz q item s.k).1 = 0 ∨ hrtQueueTrySendCs sz q item s.k =
        (-1, none, s.k)) ∧
      ((hrtQueueTrySendCs sz q item s.k).1 = -1 ↔ (s.k.queues q).count = (objs.queue q).capacity) ∧
      hrtQueueTrySendFromIsrCs sz q item s.k = hrtQueueTrySendCs sz q item s.k) ∧
    ((hrtQueueTryRecvCs sz q s.k).1 = 0 ∨ hrtQueueTryRecvCs sz q s.k = (-1, [], none, s.k)) ∧
    ((hrtQueueTryRecvCs sz q s.k).1 = -1 ↔ (s.k.queues q).count = 0) ∧
    hrtQueueTryRecvFromIsrCs sz q s.k = hrtQueueTryRecvCs sz q s.k := by
  obtain ⟨htrace, hwf, hsize⟩ := queue_trace hr hrun q
  obtain ⟨hio, hle, hcap⟩ := Channel.items_of_trace rfl htrace
  have hcap' : (s.k.queues q).capacity = (objs.queue q).capacity := hcap
  have hcount : (s.k.queues q).count ≤ (s.k.queues q).capacity := by
    rw [← Queue.length_contents]
    exact hle
  have hhead : (s.k.queues q).head < (s.k.queues q).capacity := hwf.items.head_lt
  have htail : (s.k.queues q).tail < (s.k.queues q).capacity := by
    rw [show (s.k.queues q).tail = _ from hwf.items.tail_eq]
    exact Nat.mod_lt _ (lt_of_le_of_lt (Nat.zero_le _) hhead)
  refine ⟨⟨⟨_, hio.symm⟩, hio, Queue.length_contents _, hcap' ▸ hcount, hcap' ▸ hhead,
    hcap' ▸ htail⟩, ?_, fun item => ?_, ?_⟩
  · intro l₁ t c code l₂ hl
    exact (transferInv_of_run hr hrun).returns l₁ (.ret t c code) l₂ hl
  · by_cases hlt : (s.k.queues q).count < (s.k.queues q).capacity
    · rw [hrtQueueTrySendCs_of_lt hlt]
      refine ⟨Or.inl rfl, ?_, (hrtQueueTrySendCs_of_lt hlt : _)⟩
      rw [← hcap']
      exact ⟨fun h => absurd h (by simp), fun h => absurd h (Nat.ne_of_lt hlt)⟩
    · have hfull := Nat.le_of_not_lt hlt
      rw [hrtQueueTrySendCs_of_full hfull]
      refine ⟨Or.inr rfl, ?_, (hrtQueueTrySendCs_of_full hfull : _)⟩
      rw [← hcap']
      exact ⟨fun _ => Nat.le_antisymm hcount hfull, fun _ => rfl⟩
  · by_cases h0 : (s.k.queues q).count = 0
    · rw [hrtQueueTryRecvCs_of_empty h0]
      exact ⟨Or.inr rfl, ⟨fun _ => h0, fun _ => rfl⟩, (hrtQueueTryRecvCs_of_empty h0 : _)⟩
    · rw [hrtQueueTryRecvCs_of_pos h0]
      refine ⟨Or.inl rfl, ⟨fun h => absurd h (by simp), fun h => absurd h h0⟩, ?_⟩
      exact (hrtQueueTryRecvCs_of_pos h0 : _)

/-- Two tasks of the default build; the first sends a byte to queue 0, the second receives it. -/
def relayRun : List Interleave.Action :=
  [.main (.createTask ⟨1, 0, 0x20000000, 64, none⟩),
    .main (.createTask ⟨2, 0, 0x20001000, 64, none⟩),
    .task 0 (.queueSend 0 [7]), .task 1 (.queueRecv 0), .task 0 (.queueTrySend 0 [8])]

/-- Integrity at the end of `relayRun`: one byte went through and one is in the queue. -/
theorem queue_integrity_relay :
    ∃ s, exec (Interleave.step .default .posix) (Sys.boot .default .posix none .basic .bss) relayRun =
        some s ∧
      Channel.gots (queueLog 0 s.log) = [[7]] ∧
      Channel.puts (queueLog 0 s.log) = [[7]] ++ (s.k.queues 0).contents ∧
      (hrtQueueTrySendCs .default 0 [9] s.k).1 = -1 := by
  have heval : ((exec (Interleave.step .default .posix)
      (Sys.boot .default .posix none .basic .bss) relayRun).map fun s =>
        (Channel.gots (queueLog 0 s.log), (s.k.queues 0).count)) = some ([[7]], 1) := by
    decide +kernel
  obtain ⟨s, hs, hv⟩ := Option.map_eq_some_iff.mp heval
  obtain ⟨hgot, hcount⟩ := Prod.mk.inj hv
  obtain ⟨⟨-, hio, -⟩, -, htry, -⟩ := queue_integrity (by decide) hs 0
  exact ⟨s, hs, hgot, hgot ▸ hio, (htry [9]).2.1.mpr hcount⟩

/-- **No lost wakeup.** In every reachable state, while a receiver is parked every item in the queue
has a woken receiver still on its way to it, and while a sender is parked every free place has a woken
sender still on its way. -/
theorem queue_no_lost_wakeup (hr : sz.Representable)
    (hrun : exec (Interleave.step sz port) (Sys.boot sz port cfg objs mem) as = some s) (q : ℕ) :
    (0 < (s.k.queues q).rx.count →
      (s.k.queues q).count ≤ (Channel.receiversOnTheWay (queueLog q s.log)).card) ∧
    (0 < (s.k.queues q).tx.count →
      (objs.queue q).capacity - (s.k.queues q).count ≤
        (Channel.sendersOnTheWay (queueLog q s.log)).card) ∧
    (0 < (s.k.queues q).rx.count → 0 < (s.k.queues q).count →
      (Channel.receiversOnTheWay (queueLog q s.log)).Nonempty) ∧
    (0 < (s.k.queues q).tx.count → (s.k.queues q).count < (objs.queue q).capacity →
      (Channel.sendersOnTheWay (queueLog q s.log)).Nonempty) := by
  obtain ⟨htrace, hwf, hsize⟩ := queue_trace hr hrun q
  obtain ⟨-, -, hcap⟩ := Channel.items_of_trace rfl htrace
  have hcap' : (s.k.queues q).capacity = (objs.queue q).capacity := hcap
  obtain ⟨hrx, htx⟩ := Channel.covered_of_trace rfl rfl rfl htrace
  have hrx' : 0 < (s.k.queues q).rx.count →
      (s.k.queues q).count ≤ (Channel.receiversOnTheWay (queueLog q s.log)).card := by
    intro h
    have hle := hrx.covered fun hnil =>
      Nat.pos_iff_ne_zero.mp h (RingBuffer.toList_eq_nil_iff.mp hnil)
    rwa [← Queue.length_contents]
  have htx' : 0 < (s.k.queues q).tx.count → (objs.queue q).capacity - (s.k.queues q).count ≤
      (Channel.sendersOnTheWay (queueLog q s.log)).card := by
    intro h
    have hle := htx.covered fun hnil =>
      Nat.pos_iff_ne_zero.mp h (RingBuffer.toList_eq_nil_iff.mp hnil)
    rw [← hcap', ← Queue.length_contents]
    exact hle
  refine ⟨hrx', htx', fun h hpos => ?_, fun h hlt => ?_⟩
  · exact Finset.card_pos.mp (lt_of_lt_of_le hpos (hrx' h))
  · exact Finset.card_pos.mp (lt_of_lt_of_le (Nat.sub_pos_of_lt hlt) (htx' h))

/-- Two receivers park on queue 0, then an interrupt sends one byte. -/
def overtakenRun : List Interleave.Action :=
  [.main (.createTask ⟨1, 0, 0x20000000, 64, none⟩),
    .main (.createTask ⟨2, 0, 0x20001000, 64, none⟩),
    .task 0 (.queueRecv 0), .task 0 .yield, .task 1 (.queueRecv 0), .task 1 .yield,
    .isr (.queueTrySend 0 [7])]

/-- The wakeup law at the end of `overtakenRun`: the byte is there, receiver 1 is parked, and the woken
receiver 0 is on its way. -/
theorem queue_no_lost_wakeup_overtaken :
    ∃ s, exec (Interleave.step .default .posix) (Sys.boot .default .posix none .basic .bss)
        overtakenRun = some s ∧
      (s.k.queues 0).rx.count = 1 ∧ (s.k.queues 0).count = 1 ∧
      (Channel.receiversOnTheWay (queueLog 0 s.log)).Nonempty := by
  have heval : ((exec (Interleave.step .default .posix)
      (Sys.boot .default .posix none .basic .bss) overtakenRun).map fun s =>
        ((s.k.queues 0).rx.count, (s.k.queues 0).count)) = some (1, 1) := by
    decide +kernel
  obtain ⟨s, hs, hv⟩ := Option.map_eq_some_iff.mp heval
  obtain ⟨hrx, hcount⟩ := Prod.mk.inj hv
  refine ⟨s, hs, hrx, hcount, (queue_no_lost_wakeup (by decide) hs 0).2.2.1 ?_ ?_⟩
  · rw [hrx]
    decide
  · rw [hcount]
    decide

end Results

end HardRT
