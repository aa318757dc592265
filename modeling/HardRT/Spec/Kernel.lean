import HardRT.Lib.Channel
import HardRT.Lib.TokenPool
import HardRT.System.Thread

/-! # What the kernel is for

The kernel without its data layout: ready queues and wait FIFOs are lists of tasks, a message queue is a
list of items, a mutex has an owner or none, and a tick wakes the sleepers that are due. There are no
ring registers, no cells, no byte buffer, no field that means nothing while another has a certain value,
and no branch for an id outside the table.

Control blocks, errors and requests are those of the code, and so are the atomic actions of a task
(`Cont`) and the events they report.

* `Spec.Kernel` — the state.
* `Spec.makeReady`, `Spec.pick`, `Spec.schedule`, `Spec.tickIsr` — scheduling.
* `Spec.semGive`, `Spec.mutexUnlock`, `Spec.trySend`, `Spec.tryRecv`, … — the objects.
* `Spec.nextAction`, `Spec.isrAction` — what a task and an ISR do next. -/

namespace HardRT

namespace Spec

open Lib

/-! ## The state -/

/-- A mutex: its owner, and the tasks that wait for it, longest first. -/
structure Mutex where
  owner : Option ℕ
  waiters : List ℕ

/-- A message queue: a bounded channel of items of a fixed size. -/
structure Queue extends Channel ℕ (List UInt8) where
  itemSize : ℕ

/-- **The state of the kernel.** -/
structure Kernel where
  tcbs : ℕ → Tcb
  /-- The tasks queued at each priority, next to run first. -/
  ready : ℕ → List ℕ
  current : Option ℕ
  tick : ℕ
  tickHz : ℕ
  policy : Policy
  defaultSlice : ℕ
  error : Err
  /-- A reschedule has been requested and not yet served. -/
  pend : Bool
  sems : ℕ → TokenPool ℕ
  mutexes : ℕ → Mutex
  queues : ℕ → Queue

namespace Kernel

/-- The state of a task. -/
def stateOf (k : Kernel) (id : ℕ) : TaskState := (k.tcbs id).state

/-- Apply `f` to one control block. -/
def modifyTcb (k : Kernel) (id : ℕ) (f : Tcb → Tcb) : Kernel :=
  { k with tcbs := Function.update k.tcbs id (f (k.tcbs id)) }

/-- Change the state of a task. -/
def setState (k : Kernel) (id : ℕ) (st : TaskState) : Kernel :=
  k.modifyTcb id fun t => { t with state := st }

/-- Report an error. -/
def latch (k : Kernel) (e : Err) : Kernel := { k with error := e }

/-- Request a reschedule. -/
def requestSwitch (k : Kernel) : Kernel := { k with pend := true }

/-- Replace one ready queue. -/
def setReady (k : Kernel) (p : ℕ) (l : List ℕ) : Kernel :=
  { k with ready := Function.update k.ready p l }

/-- Replace one semaphore. -/
def setSem (k : Kernel) (i : ℕ) (s : TokenPool ℕ) : Kernel :=
  { k with sems := Function.update k.sems i s }

/-- Replace one mutex. -/
def setMutex (k : Kernel) (i : ℕ) (m : Mutex) : Kernel :=
  { k with mutexes := Function.update k.mutexes i m }

/-- Replace one message queue. -/
def setQueue (k : Kernel) (i : ℕ) (q : Queue) : Kernel :=
  { k with queues := Function.update k.queues i q }

end Kernel

/-! ## Tasks -/

/-- A task joins a list of waiting tasks. The list has as many places as there are tasks. -/
def enlist (sz : Sizing) (id : ℕ) (l : List ℕ) : List ℕ :=
  if l.length < sz.maxTasks then l ++ [id] else l

/-- A task joins the ready queue of a priority. -/
def push (sz : Sizing) (p id : ℕ) (k : Kernel) : Kernel :=
  if p < sz.maxPrio then
    if (k.ready p).length < sz.maxTasks then k.setReady p (k.ready p ++ [id]) else k.latch .rqOverflow
  else k.latch .invalidPrio

/-- A task becomes ready, with a full slice. -/
def makeReady (sz : Sizing) (id : ℕ) (k : Kernel) : Kernel :=
  push sz (k.tcbs id).prio id (k.modifyTcb id Tcb.refill)

/-- A context is kept at a stack pointer. -/
def setSp (id sp : ℕ) (k : Kernel) : Kernel :=
  (if sp = 0 then k.latch .spNull else k).modifyTcb id fun t => { t with sp := sp }

/-- The first free slot. -/
def firstUnused (sz : Sizing) (k : Kernel) : Option ℕ :=
  (List.range sz.maxTasks).find? fun i => k.stateOf i = .unused

/-- The control block of a new task, which uses the default slice if none is given. -/
def newTcb (a : TaskArgs) (k : Kernel) : Tcb :=
  { Tcb.zero with
    entry := a.fn
    arg := a.arg
    prio := a.prio
    timesliceCfg := (a.attr.elim k.defaultSlice TaskAttr.timeslice) % 65536
    stackBase := a.stackWords
    stackWords := a.nWords }

/-- A new task in a free slot: its control block, its context, and it is ready. -/
def fillSlot (sz : Sizing) (port : Port) (a : TaskArgs) (id : ℕ) (k : Kernel) : Kernel :=
  let k := k.modifyTcb id fun _ => newTcb a k
  let k := match port.prepareTaskStack a.stackWords a.nWords with
    | .error e => k.latch e
    | .ok (some sp) => setSp id sp k
    | .ok none => k
  makeReady sz id k

/-- The creation of a task, and its slot. -/
def createTask (sz : Sizing) (port : Port) (a : TaskArgs) (k : Kernel) : Option ℕ × Kernel :=
  if a.fn = 0 ∨ a.stackWords = 0 ∨ a.nWords < 64 then (none, k.latch .invalidTask)
  else match firstUnused sz k with
    | none => (none, k.latch .invalidId)
    | some id => (some id, fillSlot sz port a id k)

/-- A task goes to sleep. -/
def sleep (me ms : ℕ) (k : Kernel) : Kernel :=
  k.modifyTcb me fun t =>
    { t with wakeTick := (k.tick + hrtMsToTicks ms k.tickHz) % 2 ^ 32, state := .sleep }

/-- A ready task goes to the end of its queue, with a full slice. -/
def rotate (sz : Sizing) (me : ℕ) (k : Kernel) : Kernel :=
  push sz (k.tcbs me).prio me (k.modifyTcb me fun t => { t with sliceLeft := t.timesliceCfg })

/-- A task yields. -/
def yield (sz : Sizing) (me : ℕ) (k : Kernel) : Kernel :=
  if k.stateOf me = .ready then rotate sz me k else k

/-! ## Scheduling -/

/-- **The next task**: the first one of the most urgent priority that has any; otherwise the idle
task. -/
def pick (sz : Sizing) (k : Kernel) : ℕ × Kernel :=
  match (List.range sz.maxPrio).find? fun p => !(k.ready p).isEmpty with
  | some p => ((k.ready p).headD sz.idleId, k.setReady p (k.ready p).tail)
  | none => (sz.idleId, k)

/-- The outgoing task, if there is one, keeps its context and is queued if it is ready. -/
def saveOutgoing (sz : Sizing) (oldSp : ℕ) (k : Kernel) : Kernel :=
  if oldSp = 0 then k
  else match k.current with
    | none => k
    | some cur =>
        let k := k.modifyTcb cur fun t => { t with sp := oldSp }
        if k.stateOf cur = .ready then push sz (k.tcbs cur).prio cur k else k

/-- A switch. -/
def schedule (sz : Sizing) (oldSp : ℕ) (k : Kernel) : Kernel :=
  let r := pick sz (saveOutgoing sz oldSp k)
  { r.2 with current := some r.1 }

/-- The current task has come back to the scheduler: it is queued if its slice is used up. -/
def schedulerEntry (sz : Sizing) (k : Kernel) : Kernel :=
  match k.current with
  | none => k
  | some cur =>
      if k.stateOf cur = .ready ∧ k.policy.sliced ∧ 0 < (k.tcbs cur).timesliceCfg ∧
          (k.tcbs cur).sliceLeft = 0 then rotate sz cur k
      else k

/-- A sleeper whose time has come. -/
def Kernel.due (k : Kernel) (id : ℕ) : Bool :=
  k.stateOf id = .sleep ∧ tickDue k.tick (k.tcbs id).wakeTick

/-- **All sleepers whose time has come are woken**, in the order of their slots. -/
def wakeDue (sz : Sizing) (k : Kernel) : Kernel :=
  ((List.range sz.maxTasks).filter k.due).foldl (fun k id => makeReady sz id k) k

/-- The current task is charged for the tick; the flag says that its slice has run out. -/
def charge (k : Kernel) : Kernel × Bool :=
  match k.current with
  | none => (k.latch .invalidId, false)
  | some cur =>
      if k.stateOf cur = .ready ∧ k.policy.sliced ∧ 0 < (k.tcbs cur).timesliceCfg ∧
          0 < (k.tcbs cur).sliceLeft then
        (k.modifyTcb cur fun t => { t with sliceLeft := t.sliceLeft - 1 },
          (k.tcbs cur).sliceLeft = 1)
      else (k, false)

/-- **A tick.** -/
def tickIsr (sz : Sizing) (k : Kernel) : Kernel :=
  let k := { k with tick := (k.tick + 1) % 2 ^ 32 }
  let c := charge (wakeDue sz k)
  if (List.range sz.maxTasks).any k.due || c.2 then c.1.requestSwitch else c.1

/-! ## Semaphores -/

/-- A token is taken, if there is one. -/
def semTryTake (i : ℕ) (k : Kernel) : Option Kernel :=
  if (k.sems i).count = 0 then none
  else some (k.setSem i { k.sems i with count := (k.sems i).count - 1 })

/-- A task waits for a token. -/
def semPark (sz : Sizing) (i me : ℕ) (k : Kernel) : Kernel :=
  (k.setSem i { k.sems i with waiters := enlist sz me (k.sems i).waiters }).setState me .blocked

/-- **A token is given** to the longest waiting task; if nobody waits it is stored, as far as the bound
allows. -/
def semGive (sz : Sizing) (i : ℕ) (k : Kernel) : Option ℕ × Kernel :=
  match (k.sems i).waiters with
  | w :: rest => (some w, makeReady sz w (k.setSem i { k.sems i with waiters := rest }))
  | [] =>
      (none, if (k.sems i).count < (k.sems i).max then
        k.setSem i { k.sems i with count := (k.sems i).count + 1 } else k)

/-- The events of a give. -/
def giveEvents (i : ℕ) (woken : Option ℕ) (s : TokenPool ℕ) : List Event :=
  match woken with
  | some w => [.semGiven i, .semHandoff i w]
  | none => if s.count < s.max then [.semGiven i] else [.semGiven i, .semSaturated i]

/-! ## Mutexes -/

/-- A task takes a mutex that has no owner. -/
def mutexTryLock (i me : ℕ) (k : Kernel) : Bool × Kernel :=
  match (k.mutexes i).owner with
  | none => (true, k.setMutex i { k.mutexes i with owner := some me })
  | some o => (false, if o = me then k.latch .mutexRecursive else k)

/-- A task takes a mutex that has no owner, or waits for it. -/
def mutexLock (sz : Sizing) (i me : ℕ) (k : Kernel) : LockOutcome × Kernel :=
  match (k.mutexes i).owner with
  | none => (.acquired, k.setMutex i { k.mutexes i with owner := some me })
  | some o =>
      if o = me then (.recursive, k.latch .mutexRecursive)
      else (.parked, (k.setMutex i { k.mutexes i with
        waiters := enlist sz me (k.mutexes i).waiters }).setState me .blocked)

/-- **The owner gives a mutex up**: the longest waiting task is the next owner. -/
def mutexUnlock (sz : Sizing) (i me : ℕ) (k : Kernel) : UnlockOutcome × Kernel :=
  if (k.mutexes i).owner = some me then
    match (k.mutexes i).waiters with
    | w :: rest => (.handoff w, makeReady sz w (k.setMutex i ⟨some w, rest⟩))
    | [] => (.released, k.setMutex i ⟨none, []⟩)
  else (.refused, k.latch .mutexOwner)

/-! ## Message queues -/

/-- Wake the longest waiting receiver. -/
def wakeRx (sz : Sizing) (i : ℕ) (k : Kernel) : Option ℕ × Kernel :=
  match (k.queues i).receivers with
  | w :: rest => (some w, makeReady sz w (k.setQueue i { k.queues i with receivers := rest }))
  | [] => (none, k)

/-- Wake the longest waiting sender. -/
def wakeTx (sz : Sizing) (i : ℕ) (k : Kernel) : Option ℕ × Kernel :=
  match (k.queues i).senders with
  | w :: rest => (some w, makeReady sz w (k.setQueue i { k.queues i with senders := rest }))
  | [] => (none, k)

/-- **An item is sent** if there is room; the longest waiting receiver is woken. -/
def trySend (sz : Sizing) (i : ℕ) (item : List UInt8) (k : Kernel) : Option (Option ℕ × Kernel) :=
  if (k.queues i).items.length < (k.queues i).capacity then
    some (wakeRx sz i (k.setQueue i { k.queues i with
      items := (k.queues i).items ++ [itemBytes (k.queues i).itemSize item] }))
  else none

/-- **The oldest item is received** if there is any; the longest waiting sender is woken. -/
def tryRecv (sz : Sizing) (i : ℕ) (k : Kernel) : Option (List UInt8 × Option ℕ × Kernel) :=
  match (k.queues i).items with
  | x :: rest => some (x, wakeTx sz i (k.setQueue i { k.queues i with items := rest }))
  | [] => none

/-- A sender waits. -/
def parkTx (sz : Sizing) (i me : ℕ) (k : Kernel) : Kernel :=
  (k.setQueue i { k.queues i with senders := enlist sz me (k.queues i).senders }).setState me .blocked

/-- A receiver waits. -/
def parkRx (sz : Sizing) (i me : ℕ) (k : Kernel) : Kernel :=
  (k.setQueue i { k.queues i with receivers := enlist sz me (k.queues i).receivers }).setState me .blocked

/-! ## Actions -/

/-- The result of an action: the kernel, where the acting task is then, the events, and the slot of a
new task. -/
structure Outcome where
  k : Kernel
  cont : Cont
  evs : List Event
  spawn : Option ℕ

/-- The call `c` of task `t` returns. -/
def returns (t : ℕ) (c : Call) (code : ℤ) (evs : List Event) (k : Kernel) : Outcome :=
  ⟨k, .user, evs ++ [.ret t c code], none⟩

/-- The call `c` of task `t` has done its work. It returns, but if it has woken a task it yields
first. -/
def finishes (t : ℕ) (c : Call) (woken : Option ℕ) (evs : List Event) (k : Kernel) : Outcome :=
  match woken with
  | some _ => ⟨k, .yield (.ret c 0), evs, none⟩
  | none => returns t c 0 evs k

/-- The call gives up the CPU, and goes on with `a` when the task runs again. -/
def leaves (a : After) (evs : List Event) (k : Kernel) : Outcome := ⟨k, .pend a, evs, none⟩

/-- A send on behalf of the call `c`; `full` is what happens if there is no room. -/
def sendOr (sz : Sizing) (t q : ℕ) (item : List UInt8) (c : Call) (k : Kernel) (full : Outcome) :
    Outcome :=
  match trySend sz q item k with
  | some (w, k') =>
      finishes t c w (.put q (some t) (itemBytes (k.queues q).itemSize item) :: rxWokenEvent q w) k'
  | none => full

/-- A receive on behalf of the call `c`; `empty` is what happens if there is no item. -/
def recvOr (sz : Sizing) (t q : ℕ) (c : Call) (k : Kernel) (empty : Outcome) : Outcome :=
  match tryRecv sz q k with
  | some (bytes, w, k') => finishes t c w (.got q (some t) bytes :: txWokenEvent q w) k'
  | none => empty

/-- `hrt_queue_send` tries, and comes back for the second critical section if there is no room. -/
def sendAttempt (sz : Sizing) (t q : ℕ) (item : List UInt8) (k : Kernel) : Outcome :=
  sendOr sz t q item (.queueSend q item) k ⟨k, .queueSend q item, [], none⟩

/-- `hrt_queue_recv` tries, and comes back for the second critical section if there is no item. -/
def recvAttempt (sz : Sizing) (t q : ℕ) (k : Kernel) : Outcome :=
  recvOr sz t q (.queueRecv q) k ⟨k, .queueRecv q, [], none⟩

/-- **The first action of a call.** -/
def issue (sz : Sizing) (port : Port) (t : ℕ) (k : Kernel) : Call → Outcome
  | .createTask a =>
      let r := createTask sz port a k
      { returns t (.createTask a) (r.1.elim (-1) fun id => (id : ℤ)) [] r.2 with spawn := r.1 }
  | .yield => leaves (.ret .yield 0) [] (yield sz t k)
  | .sleep ms => leaves (.ret (.sleep ms) 0) [] (sleep t ms k)
  | .taskDelete =>
      if t = sz.idleId then returns t .taskDelete 0 [] k
      else leaves (.ret .taskDelete 0) [] (k.setState t .unused)
  | .setPolicy p => returns t (.setPolicy p) 0 [] { k with policy := p }
  | .setDefaultTimeslice n =>
      returns t (.setDefaultTimeslice n) 0 [] { k with defaultSlice := n % 65536 }
  | .semTryTake i =>
      match semTryTake i k with
      | some k' => returns t (.semTryTake i) 0 [.semTaken i t] k'
      | none => returns t (.semTryTake i) (-1) [] k
  | .semTake i =>
      match semTryTake i k with
      | some k' => returns t (.semTake i) 0 [.semTaken i t] k'
      | none => ⟨k, .semTake i, [], none⟩
  | .semGive i =>
      let r := semGive sz i k
      finishes t (.semGive i) r.1 (giveEvents i r.1 (k.sems i)) r.2
  | .mutexTryLock i =>
      let r := mutexTryLock i t k
      if r.1 then returns t (.mutexTryLock i) 0 [.mutexAcquired i t] r.2
      else returns t (.mutexTryLock i) (-1) [] r.2
  | .mutexLock i =>
      let r := mutexTryLock i t k
      if r.1 then returns t (.mutexLock i) 0 [.mutexAcquired i t] r.2
      else ⟨r.2, .mutexLock i, [], none⟩
  | .mutexUnlock i =>
      let r := mutexUnlock sz i t k
      match r.1 with
      | .refused => returns t (.mutexUnlock i) (-1) [] r.2
      | .handoff w => finishes t (.mutexUnlock i) (some w) [.mutexUnlocked i t, .mutexHandoff i w] r.2
      | .released => finishes t (.mutexUnlock i) none [.mutexUnlocked i t] r.2
  | .queueTrySend q item =>
      sendOr sz t q item (.queueTrySend q item) k (returns t (.queueTrySend q item) (-1) [] k)
  | .queueSend q item => sendAttempt sz t q item k
  | .queueTryRecv q => recvOr sz t q (.queueTryRecv q) k (returns t (.queueTryRecv q) (-1) [] k)
  | .queueRecv q => recvAttempt sz t q k

/-- A call goes on after the task has been away. -/
def resume (sz : Sizing) (t : ℕ) (k : Kernel) : After → Outcome
  | .ret c code => returns t c code [] k
  | .sendAgain q item => sendAttempt sz t q item k
  | .recvAgain q => recvAttempt sz t q k

/-- The second critical section of `hrt_sem_take`. -/
def semTakeAction (sz : Sizing) (t i : ℕ) (k : Kernel) : Outcome :=
  match semTryTake i k with
  | some k' => returns t (.semTake i) 0 [.semTaken i t] k'
  | none => leaves (.ret (.semTake i) 0) [.semParked i t] (semPark sz i t k)

/-- The second critical section of `hrt_mutex_lock`. -/
def mutexLockAction (sz : Sizing) (t i : ℕ) (k : Kernel) : Outcome :=
  let r := mutexLock sz i t k
  match r.1 with
  | .acquired => returns t (.mutexLock i) 0 [.mutexAcquired i t] r.2
  | .recursive => returns t (.mutexLock i) (-1) [] r.2
  | .parked => leaves (.ret (.mutexLock i) 0) [.mutexParked i t] r.2

/-- The second critical section of `hrt_queue_send`, which does not yield to the task it wakes. -/
def queueSendAction (sz : Sizing) (t q : ℕ) (item : List UInt8) (k : Kernel) : Outcome :=
  match trySend sz q item k with
  | some (w, k') => returns t (.queueSend q item) 0
      (.put q (some t) (itemBytes (k.queues q).itemSize item) :: rxWokenEvent q w) k'
  | none => leaves (.sendAgain q item) [.txParked q t] (parkTx sz q t k)

/-- The second critical section of `hrt_queue_recv`. -/
def queueRecvAction (sz : Sizing) (t q : ℕ) (k : Kernel) : Outcome :=
  match tryRecv sz q k with
  | some (bytes, w, k') =>
      returns t (.queueRecv q) 0 (.got q (some t) bytes :: txWokenEvent q w) k'
  | none => leaves (.recvAgain q) [.rxParked q t] (parkRx sz q t k)

/-- **One action of task `t`**; `c` is the call it issues if it is between calls. -/
def nextAction (sz : Sizing) (port : Port) (t : ℕ) (c : Call) (k : Kernel) : Cont → Option Outcome
  | .none => none
  | .user => some { issue sz port t k c with evs := .call t c :: (issue sz port t k c).evs }
  | .yield a => some ⟨yield sz t k, .pend a, [], none⟩
  | .pend a => some ⟨k.requestSwitch, .hop a, [], none⟩
  | .hop _ => none
  | .resumed a => some (resume sz t k a)
  | .semTake i => some (semTakeAction sz t i k)
  | .mutexLock i => some (mutexLockAction sz t i k)
  | .queueSend q item => some (queueSendAction sz t q item k)
  | .queueRecv q => some (queueRecvAction sz t q k)

/-- A reschedule is requested if a task was woken. -/
def pendIfWoken (w : Option ℕ) (k : Kernel) : Kernel := if w.isSome then k.requestSwitch else k

/-- **One operation of an ISR**: the kernel and the events. -/
def isrAction (sz : Sizing) (k : Kernel) : Isr → Kernel × List Event
  | .semGive i =>
      let r := semGive sz i k
      (pendIfWoken r.1 r.2, giveEvents i r.1 (k.sems i))
  | .queueTrySend q item =>
      match trySend sz q item k with
      | some (w, k') => (pendIfWoken w k',
          .put q none (itemBytes (k.queues q).itemSize item) :: rxWokenEvent q w)
      | none => (k, [])
  | .queueTryRecv q =>
      match tryRecv sz q k with
      | some (bytes, w, k') => (pendIfWoken w k', .got q none bytes :: txWokenEvent q w)
      | none => (k, [])

end Spec

end HardRT
