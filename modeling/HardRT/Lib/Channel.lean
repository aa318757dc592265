import HardRT.Lib.Machine
import Mathlib.Data.Finset.Card
import Mathlib.Data.List.Nodup

/-! # A bounded channel with waiting senders and receivers

A channel holds at most `capacity` items in order of arrival. Senders that find it full and receivers
that find it empty wait in arrival order; storing an item wakes the longest waiting receiver and
removing one wakes the longest waiting sender. A waking carries no item: the woken task has to come back
and may be overtaken.

* `Channel.Step` — the moves, with the events they emit.
* `Channel.items_of_trace` — nothing is lost, duplicated or reordered.
* `Channel.covered_of_trace` — no lost wakeup: while a receiver waits, the stored items are matched by
  woken receivers that have not come back yet; likewise for senders and free places. -/

namespace Lib

/-- A bounded channel; `receivers` and `senders` are the waiting tasks, longest waiting first. -/
@[ext]
structure Channel (τ α : Type*) where
  capacity : ℕ
  items : List α
  receivers : List τ
  senders : List τ

/-- What happens at a channel. `src = none` is an interrupt, which never waits. -/
inductive ChannelEvent (τ α : Type*)
  | put (src : Option τ) (x : α)
  | got (src : Option τ) (x : α)
  | receiverParked (t : τ)
  | receiverWoken (t : τ)
  | senderParked (t : τ)
  | senderWoken (t : τ)
  deriving DecidableEq

namespace Channel

variable {τ α : Type*}

/-- The waking of the head of a list of waiting tasks, if it has one. -/
def wakeHead (f : τ → ChannelEvent τ α) (l : List τ) : List (ChannelEvent τ α) :=
  l.head?.toList.map f

/-- **The moves of a channel.** -/
inductive Step : Channel τ α → List (ChannelEvent τ α) → Channel τ α → Prop
  /-- Nothing happens at this channel. -/
  | idle (c : Channel τ α) : Step c [] c
  /-- An item is stored and the longest waiting receiver is woken. -/
  | send {c : Channel τ α} (src : Option τ) (x : α) (h : c.items.length < c.capacity) :
      Step c (.put src x :: wakeHead .receiverWoken c.receivers)
        { c with items := c.items ++ [x], receivers := c.receivers.tail }
  /-- The oldest item is removed and the longest waiting sender is woken. -/
  | recv {c : Channel τ α} (src : Option τ) {x : α} {rest : List α} (h : c.items = x :: rest) :
      Step c (.got src x :: wakeHead .senderWoken c.senders)
        { c with items := rest, senders := c.senders.tail }
  /-- A receiver finds the channel empty and waits. -/
  | parkReceiver {c : Channel τ α} {t : τ} (h : c.items = []) (ht : t ∉ c.receivers) :
      Step c [.receiverParked t] { c with receivers := c.receivers ++ [t] }
  /-- A sender finds the channel full and waits. -/
  | parkSender {c : Channel τ α} {t : τ} (h : c.capacity ≤ c.items.length) (ht : t ∉ c.senders) :
      Step c [.senderParked t] { c with senders := c.senders ++ [t] }

/-! ## Integrity -/

/-- The items stored, in order. -/
def puts (l : List (ChannelEvent τ α)) : List α :=
  l.filterMap fun e => match e with
    | .put _ x => some x
    | _ => none

/-- The items removed, in order. -/
def gots (l : List (ChannelEvent τ α)) : List α :=
  l.filterMap fun e => match e with
    | .got _ x => some x
    | _ => none

@[simp] theorem puts_append (l es : List (ChannelEvent τ α)) : puts (l ++ es) = puts l ++ puts es :=
  List.filterMap_append

@[simp] theorem gots_append (l es : List (ChannelEvent τ α)) : gots (l ++ es) = gots l ++ gots es :=
  List.filterMap_append

@[simp] theorem puts_wake_receiver (src : Option τ) (x : α) (l : List τ) :
    puts (.put src x :: wakeHead .receiverWoken l) = [x] := by
  cases l <;> simp [puts, wakeHead]

@[simp] theorem gots_wake_receiver (src : Option τ) (x : α) (l : List τ) :
    gots (.put src x :: wakeHead .receiverWoken l) = [] := by
  cases l <;> simp [gots, wakeHead]

@[simp] theorem puts_wake_sender (src : Option τ) (x : α) (l : List τ) :
    puts (.got src x :: wakeHead .senderWoken l) = [] := by
  cases l <;> simp [puts, wakeHead]

@[simp] theorem gots_wake_sender (src : Option τ) (x : α) (l : List τ) :
    gots (.got src x :: wakeHead .senderWoken l) = [x] := by
  cases l <;> simp [gots, wakeHead]

/-- No move exceeds the capacity or changes it. -/
theorem Step.length_le {y z : Channel τ α} {es : List (ChannelEvent τ α)} (h : Step y es z)
    (hle : y.items.length ≤ y.capacity) :
    z.items.length ≤ z.capacity ∧ z.capacity = y.capacity := by
  cases h with
  | idle => exact ⟨hle, rfl⟩
  | send src x hlt =>
      refine ⟨?_, rfl⟩
      rw [List.length_append]
      exact hlt
  | recv src hx =>
      rw [hx, List.length_cons] at hle
      exact ⟨(Nat.le_succ _).trans hle, rfl⟩
  | parkReceiver _ _ => exact ⟨hle, rfl⟩
  | parkSender _ _ => exact ⟨hle, rfl⟩

/-- **Integrity.** What was stored is what was removed followed by what the channel holds, and the
channel holds no more than its capacity, which never changes. -/
theorem items_of_trace {c c' : Channel τ α} {l : List (ChannelEvent τ α)} (hc : c.items = [])
    (h : Trace Step c l c') :
    puts l = gots l ++ c'.items ∧ c'.items.length ≤ c'.capacity ∧ c'.capacity = c.capacity := by
  refine Trace.invariant (I := fun l c' => puts l = gots l ++ c'.items ∧
    c'.items.length ≤ c'.capacity ∧ c'.capacity = c.capacity) ⟨by simp [puts, gots, hc], by simp [hc],
    rfl⟩ ?_ h
  rintro l es y z ⟨hio, hle, hcap⟩ hs
  obtain ⟨hle', hcap'⟩ := hs.length_le hle
  refine ⟨?_, hle', hcap'.trans hcap⟩
  rw [puts_append, gots_append, hio]
  cases hs with
  | idle => simp [puts, gots]
  | send src x hlt => simp
  | recv src hx => simp [hx]
  | parkReceiver _ _ => simp [puts, gots]
  | parkSender _ _ => simp [puts, gots]

/-! ## Wakeups

The two sides of a channel obey the same law: receivers wait for items, senders wait for free places.
`Covered` is that law for one side, with `avail` the number of units a task could take, `queue` the
waiting tasks and `woken` the tasks woken and not yet back. -/

section Covered

variable [DecidableEq τ]

/-- **No lost wakeup on one side**: while a task waits, every available unit has a woken task on its
way to it. -/
structure Covered (avail : ℕ) (queue : List τ) (woken : Finset τ) : Prop where
  nodup : queue.Nodup
  disjoint : ∀ t ∈ queue, t ∉ woken
  covered : queue ≠ [] → avail ≤ woken.card

/-- The woken tasks once the head of `queue` has been woken too. -/
def wokenWith (queue : List τ) (woken : Finset τ) : Finset τ :=
  queue.head?.elim woken fun t => insert t woken

variable {avail : ℕ} {queue : List τ} {woken : Finset τ}

/-- One more unit, and the head of the queue is woken for it. -/
theorem Covered.supply (h : Covered avail queue woken) :
    Covered (avail + 1) queue.tail (wokenWith queue woken) := by
  cases queue with
  | nil => exact ⟨List.nodup_nil, by simp, by simp⟩
  | cons t rest =>
      obtain ⟨htr, hrest⟩ := List.nodup_cons.mp h.nodup
      have ht : t ∉ woken := h.disjoint t List.mem_cons_self
      refine ⟨hrest, fun u hu => ?_, fun _ => ?_⟩
      · show u ∉ insert t woken
        rw [Finset.mem_insert, not_or]
        exact ⟨fun hut => htr (hut ▸ hu), h.disjoint u (List.mem_cons_of_mem _ hu)⟩
      · show avail + 1 ≤ (insert t woken).card
        rw [Finset.card_insert_of_notMem ht]
        exact Nat.succ_le_succ (h.covered (List.cons_ne_nil t rest))

/-- One unit is taken by a task, woken or not. -/
theorem Covered.take (h : Covered (avail + 1) queue woken) (t : τ) :
    Covered avail queue (woken.erase t) := by
  refine ⟨h.nodup, fun u hu hmem => h.disjoint u hu (Finset.mem_of_mem_erase hmem), fun hq => ?_⟩
  have hcard := h.covered hq
  have herase := Finset.pred_card_le_card_erase (s := woken) (a := t)
  omega

omit [DecidableEq τ] in
/-- One unit is taken by an interrupt. -/
theorem Covered.steal (h : Covered (avail + 1) queue woken) : Covered avail queue woken :=
  ⟨h.nodup, h.disjoint, fun hq => (Nat.le_succ avail).trans (h.covered hq)⟩

/-- A task finds nothing available and waits, possibly again. -/
theorem Covered.park (h : Covered 0 queue woken) {t : τ} (ht : t ∉ queue) :
    Covered 0 (queue ++ [t]) (woken.erase t) := by
  refine ⟨?_, fun u hu => ?_, fun _ => Nat.zero_le _⟩
  · refine List.nodup_append.mpr ⟨h.nodup, List.nodup_singleton t, fun a ha b hb => ?_⟩
    rw [List.mem_singleton.mp hb]
    rintro rfl
    exact ht ha
  · rcases List.mem_append.mp hu with hu | hu
    · exact fun hmem => h.disjoint u hu (Finset.mem_of_mem_erase hmem)
    · rw [List.mem_singleton.mp hu]
      exact Finset.notMem_erase t woken

end Covered

variable [DecidableEq τ]

/-- One event of the receivers woken and not yet back. -/
def receiverStep (woken : Finset τ) : ChannelEvent τ α → Finset τ
  | .receiverWoken t => insert t woken
  | .got (some t) _ => woken.erase t
  | .receiverParked t => woken.erase t
  | _ => woken

/-- One event of the senders woken and not yet back. -/
def senderStep (woken : Finset τ) : ChannelEvent τ α → Finset τ
  | .senderWoken t => insert t woken
  | .put (some t) _ => woken.erase t
  | .senderParked t => woken.erase t
  | _ => woken

/-- The receivers woken that have neither removed an item nor parked again since. -/
def receiversOnTheWay (l : List (ChannelEvent τ α)) : Finset τ := l.foldl receiverStep ∅

/-- The senders woken that have neither stored an item nor parked again since. -/
def sendersOnTheWay (l : List (ChannelEvent τ α)) : Finset τ := l.foldl senderStep ∅

/-- Storing an item, seen from the receivers on the way. -/
theorem foldl_receiverStep_put (W : Finset τ) (src : Option τ) (x : α) (q : List τ) :
    (.put src x :: wakeHead .receiverWoken q : List (ChannelEvent τ α)).foldl receiverStep W =
      wokenWith q W := by
  cases q <;> rfl

/-- Storing an item, seen from the senders on the way. -/
theorem foldl_senderStep_put (W : Finset τ) (src : Option τ) (x : α) (q : List τ) :
    (.put src x :: wakeHead .receiverWoken q : List (ChannelEvent τ α)).foldl senderStep W =
      src.elim W W.erase := by
  cases q <;> cases src <;> rfl

/-- Removing an item, seen from the receivers on the way. -/
theorem foldl_receiverStep_got (W : Finset τ) (src : Option τ) (x : α) (q : List τ) :
    (.got src x :: wakeHead .senderWoken q : List (ChannelEvent τ α)).foldl receiverStep W =
      src.elim W W.erase := by
  cases q <;> cases src <;> rfl

/-- Removing an item, seen from the senders on the way. -/
theorem foldl_senderStep_got (W : Finset τ) (src : Option τ) (x : α) (q : List τ) :
    (.got src x :: wakeHead .senderWoken q : List (ChannelEvent τ α)).foldl senderStep W =
      wokenWith q W := by
  cases q <;> rfl

/-- Taking a unit, by a task or by an interrupt. -/
theorem Covered.takeBy {avail : ℕ} {queue : List τ} {woken : Finset τ}
    (h : Covered (avail + 1) queue woken) (src : Option τ) :
    Covered avail queue (src.elim woken woken.erase) := by
  cases src with
  | none => exact h.steal
  | some t => exact h.take t

/-- **No lost wakeup.** Along every trace from an empty channel both sides stay covered. -/
theorem covered_of_trace {c c' : Channel τ α} {l : List (ChannelEvent τ α)} (hc : c.items = [])
    (hrx : c.receivers = []) (htx : c.senders = []) (h : Trace Step c l c') :
    Covered c'.items.length c'.receivers (receiversOnTheWay l) ∧
    Covered (c'.capacity - c'.items.length) c'.senders (sendersOnTheWay l) := by
  suffices hinv : c'.items.length ≤ c'.capacity ∧
      Covered c'.items.length c'.receivers (receiversOnTheWay l) ∧
      Covered (c'.capacity - c'.items.length) c'.senders (sendersOnTheWay l) from hinv.2
  refine Trace.invariant (I := fun l c' => c'.items.length ≤ c'.capacity ∧
    Covered c'.items.length c'.receivers (receiversOnTheWay l) ∧
    Covered (c'.capacity - c'.items.length) c'.senders (sendersOnTheWay l)) ?_ ?_ h
  · rw [hrx, htx]
    exact ⟨by simp [hc], ⟨List.nodup_nil, by simp, by simp⟩, ⟨List.nodup_nil, by simp, by simp⟩⟩
  · rintro l es y z ⟨hle, hr, hs⟩ hstep
    refine ⟨(hstep.length_le hle).1, ?_⟩
    rw [receiversOnTheWay, sendersOnTheWay, List.foldl_append, List.foldl_append]
    cases hstep with
    | idle => exact ⟨hr, hs⟩
    | send src x hlt =>
        -- an item for the receivers is a free place less for the senders
        have hfree : y.capacity - y.items.length = (y.capacity - (y.items ++ [x]).length) + 1 := by
          rw [List.length_append, List.length_singleton]
          omega
        rw [hfree] at hs
        rw [foldl_receiverStep_put, foldl_senderStep_put]
        refine ⟨?_, hs.takeBy src⟩
        rw [List.length_append]
        exact hr.supply
    | recv src hx =>
        rename_i x rest
        rw [hx, List.length_cons] at hr hs hle
        have hfree : y.capacity - rest.length = (y.capacity - (rest.length + 1)) + 1 := by omega
        rw [foldl_receiverStep_got, foldl_senderStep_got]
        refine ⟨hr.takeBy src, ?_⟩
        show Covered (y.capacity - rest.length) _ _
        rw [hfree]
        exact hs.supply
    | parkReceiver hempty ht =>
        rw [hempty] at hr
        refine ⟨?_, hs⟩
        show Covered y.items.length _ _
        rw [hempty]
        exact hr.park ht
    | parkSender hfull ht =>
        have hzero := Nat.sub_eq_zero_of_le hfull
        rw [hzero] at hs
        refine ⟨hr, ?_⟩
        show Covered (y.capacity - y.items.length) _ _
        rw [hzero]
        exact hs.park ht

end Channel

end Lib
