import HardRT.Lib.Channel
import HardRT.Protocol.BlockedTasks

/-! # Message queues refine bounded channels

The queue object (a byte buffer with ring registers and two rings of waiting task ids) is an
implementation of `Lib.Channel` with byte strings as items. `Queue.channel` is the abstraction function,
`Event.channel` projects the system log to the events of one channel, and `queue_refines` says that
every step of the interleaving machine is a move of every channel that emits the projected events. -/

namespace HardRT

open Lib

/-! ## The abstraction -/

/-- The channel event an event is, at queue `q`. -/
def Event.channel (q : ℕ) : Event → Option (ChannelEvent ℕ (List UInt8))
  | .put q' src bytes => if q' = q then some (.put src bytes) else none
  | .got q' src bytes => if q' = q then some (.got src bytes) else none
  | .rxParked q' t => if q' = q then some (.receiverParked t) else none
  | .rxWoken q' t => if q' = q then some (.receiverWoken t) else none
  | .txParked q' t => if q' = q then some (.senderParked t) else none
  | .txWoken q' t => if q' = q then some (.senderWoken t) else none
  | _ => none

/-- The channel a queue implements. -/
def Queue.channel (sz : Sizing) (Q : Queue) : Channel ℕ (List UInt8) where
  capacity := Q.capacity
  items := Q.contents
  receivers := Q.rx.toList sz.maxTasks
  senders := Q.tx.toList sz.maxTasks

/-- The registers of a queue are consistent: its item ring is well formed and its capacity is a
`uint16_t`. -/
structure Queue.WF (Q : Queue) : Prop where
  items : Q.items.WF Q.capacity
  capacity_lt : Q.capacity < 65536

/-- The number of items is the count register. -/
@[simp] theorem Queue.length_contents (Q : Queue) : Q.contents.length = Q.count :=
  RingBuffer.length_toList _ _

/-- Storing an item appends it to the contents. -/
theorem Queue.WF.enqueue {Q : Queue} (h : Q.WF) (hlt : Q.count < Q.capacity) (item : List UInt8) :
    (enqueueCs item Q).2.WF ∧
    (enqueueCs item Q).2.contents = Q.contents ++ [itemBytes Q.itemSize item] ∧
    (enqueueCs item Q).1 = 0 ∧ (enqueueCs item Q).2.capacity = Q.capacity ∧
    (enqueueCs item Q).2.itemSize = Q.itemSize ∧ (enqueueCs item Q).2.rx = Q.rx ∧
    (enqueueCs item Q).2.tx = Q.tx := by
  have hitems := enqueueCs_items hlt item
  have hcap : (enqueueCs item Q).2.capacity = Q.capacity := by
    rw [enqueueCs, if_neg (by omega)]
  have hput := h.items.put h.capacity_lt hlt (itemBytes Q.itemSize item)
  refine ⟨⟨by rw [hitems, hcap]; exact hput, by rw [hcap]; exact h.capacity_lt⟩, ?_, ?_⟩
  · rw [Queue.contents, hitems, hcap, RingBuffer.toList_put h.items h.capacity_lt hlt]
    rfl
  · rw [enqueueCs, if_neg (by omega)]
    exact ⟨rfl, rfl, rfl, rfl, rfl⟩

/-- Removing an item drops the head of the contents and copies it out. -/
theorem Queue.WF.dequeue {Q : Queue} (h : Q.WF) (hne : Q.count ≠ 0) :
    (dequeueCs Q).2.2.WF ∧ Q.contents = (dequeueCs Q).2.1 :: (dequeueCs Q).2.2.contents ∧
    (dequeueCs Q).1 = 0 ∧ (dequeueCs Q).2.2.capacity = Q.capacity ∧
    (dequeueCs Q).2.2.itemSize = Q.itemSize ∧ (dequeueCs Q).2.2.rx = Q.rx ∧
    (dequeueCs Q).2.2.tx = Q.tx := by
  have hitems := dequeueCs_items hne
  have hcap : (dequeueCs Q).2.2.capacity = Q.capacity := by
    rw [dequeueCs, if_neg hne]
  refine ⟨⟨by rw [hitems, hcap]; exact h.items.drop h.capacity_lt.le hne,
    by rw [hcap]; exact h.capacity_lt⟩, ?_, ?_⟩
  · rw [Queue.contents, Queue.contents, hitems, hcap, dequeueCs_bytes hne]
    exact RingBuffer.toList_drop h.items h.capacity_lt.le hne
  · rw [dequeueCs, if_neg hne]
    exact ⟨rfl, rfl, rfl, rfl, rfl⟩

/-! ## Moves of one kernel step -/

/-- The change of the queues from `k` to `k'` is, at each queue, a channel move that emits the events
`evs`; registers stay consistent and item sizes fixed. -/
def QueueStep (sz : Sizing) (k k' : Kernel) (evs : List Event) : Prop :=
  ∀ q, Channel.Step ((k.queues q).channel sz) (evs.filterMap (Event.channel q))
      ((k'.queues q).channel sz) ∧
    (k'.queues q).WF ∧ (k'.queues q).itemSize = (k.queues q).itemSize

section QueueStep

variable {sz : Sizing} {k k' : Kernel} {evs : List Event} {i : ℕ}

/-- Nothing happened at any queue. -/
theorem QueueStep.same (hQ : ∀ q, (k.queues q).WF) (hk : k'.queues = k.queues)
    (hev : ∀ q, evs.filterMap (Event.channel q) = []) : QueueStep sz k k' evs := by
  intro q
  rw [hk, hev q]
  exact ⟨.idle _, hQ q, rfl⟩

/-- The move is determined by the queues. -/
theorem QueueStep.congr {k'' : Kernel} (h : QueueStep sz k k' evs) (hk : k''.queues = k'.queues) :
    QueueStep sz k k'' evs := by
  intro q
  rw [hk]
  exact h q

/-- One queue made a move. -/
theorem QueueStep.update (hQ : ∀ q, (k.queues q).WF) {Q' : Queue}
    (hk : k'.queues = Function.update k.queues i Q') (hwf : Q'.WF)
    (hsize : Q'.itemSize = (k.queues i).itemSize)
    (hstep : Channel.Step ((k.queues i).channel sz) (evs.filterMap (Event.channel i))
      (Q'.channel sz))
    (hother : ∀ q, q ≠ i → evs.filterMap (Event.channel q) = []) : QueueStep sz k k' evs := by
  intro q
  by_cases hq : q = i
  · subst hq
    rw [hk, Function.update_self]
    exact ⟨hstep, hwf, hsize⟩
  · rw [hk, Function.update_of_ne hq, hother q hq]
    exact ⟨.idle _, hQ q, rfl⟩

/-- The waking of a receiver, projected. -/
theorem filterMap_rxWokenEvent (q i : ℕ) (w : Option ℕ) :
    (rxWokenEvent i w).filterMap (Event.channel q) =
      if i = q then w.toList.map ChannelEvent.receiverWoken else [] := by
  cases w <;> by_cases h : i = q <;> simp [rxWokenEvent, Event.channel, h]

/-- The waking of a sender, projected. -/
theorem filterMap_txWokenEvent (q i : ℕ) (w : Option ℕ) :
    (txWokenEvent i w).filterMap (Event.channel q) =
      if i = q then w.toList.map ChannelEvent.senderWoken else [] := by
  cases w <;> by_cases h : i = q <;> simp [txWokenEvent, Event.channel, h]

/-- `wakeRx` replaces one queue, by one without its longest waiting receiver. -/
theorem wakeRx_queues (sz : Sizing) (i : ℕ) (k : Kernel) :
    (wakeRx sz i k).1 = ((k.queues i).rx.pop 256 sz.maxTasks).1 ∧
    (wakeRx sz i k).2.queues = Function.update k.queues i
      { k.queues i with rx := ((k.queues i).rx.pop 256 sz.maxTasks).2 } := by
  unfold wakeRx wqPop
  split <;> rename_i r heq <;> rw [heq]
  · exact ⟨rfl, by rw [hrtMakeReady_queues]; rfl⟩
  · exact ⟨rfl, rfl⟩

/-- `wakeTx` replaces one queue, by one without its longest waiting sender. -/
theorem wakeTx_queues (sz : Sizing) (i : ℕ) (k : Kernel) :
    (wakeTx sz i k).1 = ((k.queues i).tx.pop 256 sz.maxTasks).1 ∧
    (wakeTx sz i k).2.queues = Function.update k.queues i
      { k.queues i with tx := ((k.queues i).tx.pop 256 sz.maxTasks).2 } := by
  unfold wakeTx wqPop
  split <;> rename_i r heq <;> rw [heq]
  · exact ⟨rfl, by rw [hrtMakeReady_queues]; rfl⟩
  · exact ⟨rfl, rfl⟩

/-- **Storing an item and waking a receiver** is a send move. -/
theorem QueueStep.send (hQ : ∀ q, (k.queues q).WF) (hring : ∀ w, (k.ring w).WF sz.maxTasks)
    (hr : sz.Representable) {item : List UInt8} (hlt : (k.queues i).count < (k.queues i).capacity)
    {w : Option ℕ × Kernel} (hw : w = wakeRx sz i (k.setQueue i (enqueueCs item (k.queues i)).2))
    (src : Option ℕ)
    (hev : ∀ q, evs.filterMap (Event.channel q) = if i = q then
      .put src (itemBytes (k.queues i).itemSize item) :: w.1.toList.map .receiverWoken else []) :
    QueueStep sz k w.2 evs := by
  obtain ⟨hwf, hcont, -, hcap, hsize, hrx, htx⟩ := (hQ i).enqueue hlt item
  have hk₁ : (k.setQueue i (enqueueCs item (k.queues i)).2).queues i =
      (enqueueCs item (k.queues i)).2 := Function.update_self _ _ _
  obtain ⟨hfst, hqueues⟩ := wakeRx_queues sz i (k.setQueue i (enqueueCs item (k.queues i)).2)
  rw [← hw, hk₁, hrx] at hfst
  rw [← hw, hk₁, hrx] at hqueues
  obtain ⟨hhead, htail⟩ := RingBuffer.pop_spec (hring (.rx i)) hr.lt.le
  have hhead' : w.1 = ((k.queues i).rx.toList sz.maxTasks).head? := hfst.trans hhead
  refine QueueStep.update hQ (i := i) (hqueues.trans (Function.update_idem _ _ _)) ?_ hsize ?_ ?_
  · exact ⟨hwf.items, hwf.capacity_lt⟩
  · rw [hev i, if_pos rfl, hhead']
    have hmove := Channel.Step.send (c := (k.queues i).channel sz) src
      (itemBytes (k.queues i).itemSize item) (by simpa [Queue.channel] using hlt)
    have hafter : Queue.channel sz { (enqueueCs item (k.queues i)).2 with
        rx := ((k.queues i).rx.pop 256 sz.maxTasks).2 } = { (k.queues i).channel sz with
        items := ((k.queues i).channel sz).items ++ [itemBytes (k.queues i).itemSize item]
        receivers := ((k.queues i).channel sz).receivers.tail } :=
      Channel.ext hcap hcont htail (congrArg (RingBuffer.toList sz.maxTasks) htx)
    rw [hafter]
    exact hmove
  · intro q hq
    rw [hev q, if_neg (Ne.symm hq)]

/-- **Removing an item and waking a sender** is a receive move. -/
theorem QueueStep.recv (hQ : ∀ q, (k.queues q).WF) (hring : ∀ w, (k.ring w).WF sz.maxTasks)
    (hr : sz.Representable) (hne : (k.queues i).count ≠ 0) {w : Option ℕ × Kernel}
    (hw : w = wakeTx sz i (k.setQueue i (dequeueCs (k.queues i)).2.2)) (src : Option ℕ)
    (hev : ∀ q, evs.filterMap (Event.channel q) = if i = q then
      .got src (dequeueCs (k.queues i)).2.1 :: w.1.toList.map .senderWoken else []) :
    QueueStep sz k w.2 evs := by
  obtain ⟨hwf, hcont, -, hcap, hsize, hrx, htx⟩ := (hQ i).dequeue hne
  have hk₁ : (k.setQueue i (dequeueCs (k.queues i)).2.2).queues i =
      (dequeueCs (k.queues i)).2.2 := Function.update_self _ _ _
  obtain ⟨hfst, hqueues⟩ := wakeTx_queues sz i (k.setQueue i (dequeueCs (k.queues i)).2.2)
  rw [← hw, hk₁, htx] at hfst
  rw [← hw, hk₁, htx] at hqueues
  obtain ⟨hhead, htail⟩ := RingBuffer.pop_spec (hring (.tx i)) hr.lt.le
  have hhead' : w.1 = ((k.queues i).tx.toList sz.maxTasks).head? := hfst.trans hhead
  refine QueueStep.update hQ (i := i) (hqueues.trans (Function.update_idem _ _ _)) ?_ hsize ?_ ?_
  · exact ⟨hwf.items, hwf.capacity_lt⟩
  · rw [hev i, if_pos rfl, hhead']
    have hmove := Channel.Step.recv (c := (k.queues i).channel sz) src hcont
    have hafter : Queue.channel sz { (dequeueCs (k.queues i)).2.2 with
        tx := ((k.queues i).tx.pop 256 sz.maxTasks).2 } = { (k.queues i).channel sz with
        items := (dequeueCs (k.queues i)).2.2.contents
        senders := ((k.queues i).channel sz).senders.tail } :=
      Channel.ext hcap rfl (congrArg (RingBuffer.toList sz.maxTasks) hrx) htail
    rw [hafter]
    exact hmove
  · intro q hq
    rw [hev q, if_neg (Ne.symm hq)]

/-- **Parking a receiver** is a park move. -/
theorem QueueStep.parkRx (hQ : ∀ q, (k.queues q).WF) (hring : ∀ w, (k.ring w).WF sz.maxTasks)
    (hr : sz.Representable) {t : ℕ} (ht : Parkable sz t k) (h0 : (k.queues i).count = 0)
    (hk : k'.queues = Function.update k.queues i
      { k.queues i with rx := wqPush sz (t % 256) (k.queues i).rx }) :
    QueueStep sz k k' [.rxParked i t] := by
  have hpush : (wqPush sz (t % 256) (k.queues i).rx).toList sz.maxTasks =
      (k.queues i).rx.toList sz.maxTasks ++ [t] := ht.toList_push hr (hring (.rx i))
  refine QueueStep.update hQ hk ⟨(hQ i).items, (hQ i).capacity_lt⟩ rfl ?_ ?_
  · have hempty : (k.queues i).contents = [] := RingBuffer.toList_eq_nil_iff.mpr h0
    have hafter : Queue.channel sz { k.queues i with rx := wqPush sz (t % 256) (k.queues i).rx } =
        { (k.queues i).channel sz with receivers := ((k.queues i).channel sz).receivers ++ [t] } :=
      Channel.ext rfl rfl hpush rfl
    rw [hafter]
    simpa [Event.channel] using Channel.Step.parkReceiver (c := (k.queues i).channel sz) hempty
      (ht.fresh (.rx i))
  · intro q hq
    simp [Event.channel, Ne.symm hq]

/-- **Parking a sender** is a park move. -/
theorem QueueStep.parkTx (hQ : ∀ q, (k.queues q).WF) (hring : ∀ w, (k.ring w).WF sz.maxTasks)
    (hr : sz.Representable) {t : ℕ} (ht : Parkable sz t k)
    (hfull : (k.queues i).capacity ≤ (k.queues i).count)
    (hk : k'.queues = Function.update k.queues i
      { k.queues i with tx := wqPush sz (t % 256) (k.queues i).tx }) :
    QueueStep sz k k' [.txParked i t] := by
  have hpush : (wqPush sz (t % 256) (k.queues i).tx).toList sz.maxTasks =
      (k.queues i).tx.toList sz.maxTasks ++ [t] := ht.toList_push hr (hring (.tx i))
  refine QueueStep.update hQ hk ⟨(hQ i).items, (hQ i).capacity_lt⟩ rfl ?_ ?_
  · have hafter : Queue.channel sz { k.queues i with tx := wqPush sz (t % 256) (k.queues i).tx } =
        { (k.queues i).channel sz with senders := ((k.queues i).channel sz).senders ++ [t] } :=
      Channel.ext rfl rfl rfl hpush
    rw [hafter]
    simpa [Event.channel] using Channel.Step.parkSender (c := (k.queues i).channel sz)
      (by simpa [Queue.channel] using hfull) (ht.fresh (.tx i))
  · intro q hq
    simp [Event.channel, Ne.symm hq]

end QueueStep

/-! ## Every step is a channel move -/

section Refinement

variable {sz : Sizing} {port : Port} {t : ℕ} {k : Kernel} {call : Call} {c : Cont} {o : Outcome}

theorem sendAttempt_queueStep (hQ : ∀ q, (k.queues q).WF) (hring : ∀ w, (k.ring w).WF sz.maxTasks)
    (hr : sz.Representable) (q : ℕ) (item : List UInt8) :
    QueueStep sz k (sendAttempt sz t q item k).k (sendAttempt sz t q item k).evs := by
  by_cases hlt : (k.queues q).count < (k.queues q).capacity
  · rw [sendAttempt, hrtQueueTrySendCs_of_lt hlt]
    simp only [if_true]
    split
    · rename_i w hw
      refine QueueStep.send hQ hring hr hlt rfl (some t) fun q' => ?_
      rcases eq_or_ne q q' with rfl | h
      · simp [Event.channel, hw]
      · simp [Event.channel, h]
    · rename_i hw
      refine QueueStep.send hQ hring hr hlt rfl (some t) fun q' => ?_
      rcases eq_or_ne q q' with rfl | h
      · simp [Event.channel, hw]
      · simp [Event.channel, h]
  · rw [sendAttempt, hrtQueueTrySendCs_of_full (Nat.le_of_not_lt hlt)]
    exact QueueStep.same hQ rfl fun q' => rfl

theorem recvAttempt_queueStep (hQ : ∀ q, (k.queues q).WF) (hring : ∀ w, (k.ring w).WF sz.maxTasks)
    (hr : sz.Representable) (q : ℕ) :
    QueueStep sz k (recvAttempt sz t q k).k (recvAttempt sz t q k).evs := by
  by_cases h0 : (k.queues q).count = 0
  · rw [recvAttempt, hrtQueueTryRecvCs_of_empty h0]
    exact QueueStep.same hQ rfl fun q' => rfl
  · rw [recvAttempt, hrtQueueTryRecvCs_of_pos h0]
    simp only [if_true]
    split
    · rename_i w hw
      refine QueueStep.recv hQ hring hr h0 rfl (some t) fun q' => ?_
      rcases eq_or_ne q q' with rfl | h
      · simp [Event.channel, hw]
      · simp [Event.channel, h]
    · rename_i hw
      refine QueueStep.recv hQ hring hr h0 rfl (some t) fun q' => ?_
      rcases eq_or_ne q q' with rfl | h
      · simp [Event.channel, hw]
      · simp [Event.channel, h]

theorem queueSendAction_queueStep (hQ : ∀ q, (k.queues q).WF)
    (hring : ∀ w, (k.ring w).WF sz.maxTasks) (hr : sz.Representable) (ht : Parkable sz t k) (q : ℕ)
    (item : List UInt8) :
    QueueStep sz k (queueSendAction sz t q item k).k (queueSendAction sz t q item k).evs := by
  by_cases hlt : (k.queues q).count < (k.queues q).capacity
  · rw [queueSendAction, hrtQueueSendCs, if_pos hlt]
    refine QueueStep.send hQ hring hr hlt rfl (some t) fun q' => ?_
    rcases eq_or_ne q q' with rfl | h
    · simp [Event.channel, filterMap_rxWokenEvent]
    · simp [Event.channel, filterMap_rxWokenEvent, h]
  · rw [queueSendAction, hrtQueueSendCs, if_neg hlt]
    exact QueueStep.parkTx hQ hring hr ht (Nat.le_of_not_lt hlt) rfl

theorem queueRecvAction_queueStep (hQ : ∀ q, (k.queues q).WF)
    (hring : ∀ w, (k.ring w).WF sz.maxTasks) (hr : sz.Representable) (ht : Parkable sz t k) (q : ℕ) :
    QueueStep sz k (queueRecvAction sz t q k).k (queueRecvAction sz t q k).evs := by
  by_cases h0 : (k.queues q).count = 0
  · rw [queueRecvAction, hrtQueueRecvCs, if_neg (not_not.mpr h0)]
    exact QueueStep.parkRx hQ hring hr ht h0 rfl
  · rw [queueRecvAction, hrtQueueRecvCs, if_pos h0]
    refine QueueStep.recv hQ hring hr h0 rfl (some t) fun q' => ?_
    rcases eq_or_ne q q' with rfl | h
    · simp [Event.channel, filterMap_txWokenEvent]
    · simp [Event.channel, filterMap_txWokenEvent, h]

/-- The first action of a call is a channel move. -/
theorem issue_queueStep (hQ : ∀ q, (k.queues q).WF) (hring : ∀ w, (k.ring w).WF sz.maxTasks)
    (hr : sz.Representable) :
    QueueStep sz k (issue sz port t k call).k (issue sz port t k call).evs := by
  cases call with
  | createTask a =>
      exact QueueStep.same hQ (hrtCreateTask_objects sz port a k).queues fun q => rfl
  | yield => exact QueueStep.same hQ (hrtYieldBody_objects sz t k).queues fun q => rfl
  | sleep ms => exact QueueStep.same hQ rfl fun q => rfl
  | taskDelete =>
      simp only [issue]
      split <;> exact QueueStep.same hQ rfl fun q => rfl
  | setPolicy p => exact QueueStep.same hQ rfl fun q => rfl
  | setDefaultTimeslice n => exact QueueStep.same hQ rfl fun q => rfl
  | semTryTake i =>
      simp only [issue]
      split <;> exact QueueStep.same hQ hrtSemTryTake_frame.2 fun q => rfl
  | semTake i =>
      simp only [issue]
      split <;> exact QueueStep.same hQ hrtSemTryTake_frame.2 fun q => rfl
  | semGive i =>
      simp only [issue]
      split
      · exact QueueStep.same hQ giveCommonCs_frame.2 fun q => rfl
      · refine QueueStep.same hQ giveCommonCs_frame.2 fun q => ?_
        unfold giveEvents
        split_ifs <;> rfl
  | mutexTryLock i =>
      simp only [issue]
      split <;> exact QueueStep.same hQ hrtMutexTryLock_frame.2 fun q => rfl
  | mutexLock i =>
      simp only [issue]
      split_ifs
      · exact QueueStep.same hQ rfl fun q => rfl
      · exact QueueStep.same hQ hrtMutexTryLock_frame.2 fun q => rfl
      · exact QueueStep.same hQ hrtMutexTryLock_frame.2 fun q => rfl
  | mutexUnlock i =>
      simp only [issue]
      split <;> exact QueueStep.same hQ hrtMutexUnlockCs_frame.2 fun q => rfl
  | queueTrySend q item =>
      -- the same move as in `hrt_queue_send`, followed by a return in any case
      by_cases hlt : (k.queues q).count < (k.queues q).capacity
      · simp only [issue, hrtQueueTrySendCs_of_lt hlt, if_true]
        split
        · rename_i w hw
          refine QueueStep.send hQ hring hr hlt rfl (some t) fun q' => ?_
          rcases eq_or_ne q q' with rfl | h
          · simp [Event.channel, hw]
          · simp [Event.channel, h]
        · rename_i hw
          refine QueueStep.send hQ hring hr hlt rfl (some t) fun q' => ?_
          rcases eq_or_ne q q' with rfl | h
          · simp [Event.channel, hw]
          · simp [Event.channel, h]
      · simp only [issue, hrtQueueTrySendCs_of_full (Nat.le_of_not_lt hlt)]
        exact QueueStep.same hQ rfl fun q' => rfl
  | queueSend q item => exact sendAttempt_queueStep hQ hring hr q item
  | queueTryRecv q =>
      by_cases h0 : (k.queues q).count = 0
      · simp only [issue, hrtQueueTryRecvCs_of_empty h0]
        exact QueueStep.same hQ rfl fun q' => rfl
      · simp only [issue, hrtQueueTryRecvCs_of_pos h0, if_true]
        split
        · rename_i w hw
          refine QueueStep.recv hQ hring hr h0 rfl (some t) fun q' => ?_
          rcases eq_or_ne q q' with rfl | h
          · simp [Event.channel, hw]
          · simp [Event.channel, h]
        · rename_i hw
          refine QueueStep.recv hQ hring hr h0 rfl (some t) fun q' => ?_
          rcases eq_or_ne q q' with rfl | h
          · simp [Event.channel, hw]
          · simp [Event.channel, h]
  | queueRecv q => exact recvAttempt_queueStep hQ hring hr q

/-- **Every action of a task is a channel move.** -/
theorem task_queueStep (hQ : ∀ q, (k.queues q).WF) (hring : ∀ w, (k.ring w).WF sz.maxTasks)
    (hr : sz.Representable) (ht : c.rechecks = true → Parkable sz t k)
    (h : nextAction sz port t call k c = some o) : QueueStep sz k o.k o.evs := by
  cases c with
  | none => exact absurd h (by simp [nextAction])
  | hop a => exact absurd h (by simp [nextAction])
  | user =>
      obtain rfl := Option.some.inj h
      exact issue_queueStep hQ hring hr
  | yield a =>
      obtain rfl := Option.some.inj h
      exact QueueStep.same hQ (hrtYieldBody_objects sz t k).queues fun q => rfl
  | pend a =>
      obtain rfl := Option.some.inj h
      exact QueueStep.same hQ rfl fun q => rfl
  | resumed a =>
      obtain rfl := Option.some.inj h
      cases a with
      | ret c' code => exact QueueStep.same hQ rfl fun q => rfl
      | sendAgain q item => exact sendAttempt_queueStep hQ hring hr q item
      | recvAgain q => exact recvAttempt_queueStep hQ hring hr q
  | semTake i =>
      obtain rfl := Option.some.inj h
      simp only [semTakeAction]
      split <;> exact QueueStep.same hQ hrtSemTakeCs_frame.2 fun q => rfl
  | mutexLock i =>
      obtain rfl := Option.some.inj h
      simp only [mutexLockAction]
      split <;> exact QueueStep.same hQ hrtMutexLockCs_frame.2 fun q => rfl
  | queueSend q item =>
      obtain rfl := Option.some.inj h
      exact queueSendAction_queueStep hQ hring hr (ht rfl) q item
  | queueRecv q =>
      obtain rfl := Option.some.inj h
      exact queueRecvAction_queueStep hQ hring hr (ht rfl) q

/-- **Every ISR operation is a channel move.** -/
theorem isr_queueStep (hQ : ∀ q, (k.queues q).WF) (hring : ∀ w, (k.ring w).WF sz.maxTasks)
    (hr : sz.Representable) (op : Isr) :
    QueueStep sz k (isrAction sz k op).2.1 (isrAction sz k op).2.2 := by
  have hpend : ∀ (w : Option ℕ) (k' : Kernel), (pendIfWoken w k').queues = k'.queues := by
    intro w k'
    cases w <;> rfl
  cases op with
  | semGive i =>
      refine QueueStep.same hQ ((hpend _ _).trans giveCommonCs_frame.2) fun q => ?_
      simp only [isrAction, giveEvents]
      split
      · rfl
      · split_ifs <;> rfl
  | queueTrySend q item =>
      by_cases hlt : (k.queues q).count < (k.queues q).capacity
      · have heq : hrtQueueTrySendFromIsrCs sz q item k = _ := hrtQueueTrySendCs_of_lt hlt
        simp only [isrAction, heq, if_true]
        refine (QueueStep.send hQ hring hr hlt rfl none fun q' => ?_).congr (hpend _ _)
        rcases eq_or_ne q q' with rfl | h
        · simp [Event.channel, filterMap_rxWokenEvent]
        · simp [Event.channel, filterMap_rxWokenEvent, h]
      · have heq : hrtQueueTrySendFromIsrCs sz q item k = _ :=
          hrtQueueTrySendCs_of_full (Nat.le_of_not_lt hlt)
        simp only [isrAction, heq]
        exact QueueStep.same hQ rfl fun q' => rfl
  | queueTryRecv q =>
      by_cases h0 : (k.queues q).count = 0
      · have heq : hrtQueueTryRecvFromIsrCs sz q k = _ := hrtQueueTryRecvCs_of_empty h0
        simp only [isrAction, heq]
        exact QueueStep.same hQ rfl fun q' => rfl
      · have heq : hrtQueueTryRecvFromIsrCs sz q k = _ := hrtQueueTryRecvCs_of_pos h0
        simp only [isrAction, heq, if_true]
        refine (QueueStep.recv hQ hring hr h0 rfl none fun q' => ?_).congr (hpend _ _)
        rcases eq_or_ne q q' with rfl | h
        · simp [Event.channel, filterMap_txWokenEvent]
        · simp [Event.channel, filterMap_txWokenEvent, h]

variable {s s' : Sys}

/-- **Message queues refine channels**: every step of the interleaving machine is, at every queue, a
move of its channel that emits the logged events. -/
theorem queue_refines (hr : sz.Representable) {a : Interleave.Action} (hinv : PartInv sz s)
    (hQ : ∀ q, (s.k.queues q).WF) (hstep : Interleave.step sz port s a = some s') :
    ∃ es, s'.log = s.log ++ es ∧ QueueStep sz s.k s'.k es := by
  rcases Interleave.step_cases hstep with ⟨t, c, o, -, -, ho, rfl⟩ | ⟨t, c, x, -, -, rfl⟩ |
    ⟨op, -, rfl⟩ | ⟨hsame, hlog, -⟩
  · refine ⟨o.evs, rfl, ?_⟩
    have hcur := hinv.setCurrent t
    exact task_queueStep (k := (s.setCurrent t).k) hQ hcur.part.wf hr (hcur.parkable t) ho
  · exact ⟨[], (List.append_nil _).symm, QueueStep.same hQ rfl fun q => rfl⟩
  · exact ⟨_, rfl, isr_queueStep hQ hinv.part.wf hr op⟩
  · exact ⟨[], hlog.trans (List.append_nil _).symm, QueueStep.same hQ hsame.queues fun q => rfl⟩

/-- **Trace refinement.** In every reachable state the log, projected to a queue, is a trace of that
queue's channel from the empty one to the present one. -/
theorem queue_trace (hr : sz.Representable) {cfg : Option KernelConfig} {objs : ObjectSpecs}
    {mem : Kernel} {as : List Interleave.Action}
    (hrun : exec (Interleave.step sz port) (Sys.boot sz port cfg objs mem) as = some s) (q : ℕ) :
    Trace Channel.Step ⟨(objs.queue q).capacity, [], [], []⟩ (s.log.filterMap (Event.channel q))
      ((s.k.queues q).channel sz) ∧
    (s.k.queues q).WF ∧ (s.k.queues q).itemSize = (objs.queue q).itemSize := by
  have hinit : ∀ q, ((Sys.boot sz port cfg objs mem).k.queues q).WF := fun q =>
    ⟨RingBuffer.WF.zero (objs.queue q).capacity_pos _, Nat.lt_succ_of_le (objs.queue q).capacity_le⟩
  have hchan : ((Sys.boot sz port cfg objs mem).k.queues q).channel sz =
      ⟨(objs.queue q).capacity, [], [], []⟩ :=
    Channel.ext rfl (RingBuffer.toList_eq_nil_iff.mpr rfl) (RingBuffer.toList_eq_nil_iff.mpr rfl)
      (RingBuffer.toList_eq_nil_iff.mpr rfl)
  suffices hinv : PartInv sz s ∧ (∀ q, (s.k.queues q).WF) ∧
      Trace Channel.Step ⟨(objs.queue q).capacity, [], [], []⟩ (s.log.filterMap (Event.channel q))
        ((s.k.queues q).channel sz) ∧ (s.k.queues q).itemSize = (objs.queue q).itemSize from
    ⟨hinv.2.2.1, hinv.2.1 q, hinv.2.2.2⟩
  refine exec_invariant' (I := fun s => PartInv sz s ∧ (∀ q, (s.k.queues q).WF) ∧
      Trace Channel.Step ⟨(objs.queue q).capacity, [], [], []⟩ (s.log.filterMap (Event.channel q))
        ((s.k.queues q).channel sz) ∧ (s.k.queues q).itemSize = (objs.queue q).itemSize) ?_ ?_ hrun
  · rintro s a s' ⟨hpart, hQ, htrace, hsize⟩ hstep
    obtain ⟨es, hlog, hmove⟩ := queue_refines hr hpart hQ hstep
    refine ⟨hpart.step hr hstep, fun q => (hmove q).2.1, ?_, (hmove q).2.2.trans hsize⟩
    rw [hlog, List.filterMap_append]
    exact htrace.snoc (hmove q).1
  · refine ⟨PartInv.boot sz port cfg objs mem, hinit, ?_, rfl⟩
    rw [hchan]
    exact .nil

end Refinement

end HardRT
