import HardRT.Lib.Machine

/-! # A pool of tokens with waiting takers

A pool holds at most `max` tokens. A taker that finds none waits in arrival order; giving a token hands
it to the longest waiting taker, or stores it, or drops it when the pool is full.

* `TokenPool.Step` — the moves, with the events they emit.
* `TokenPool.balance_of_trace` — tokens are neither created nor destroyed, apart from dropped gives.
* `TokenPool.Step.bystander` — what a move means for a taker that does not move itself. -/

namespace Lib

/-- A pool of tokens; `waiters` are the waiting takers, longest waiting first. -/
structure TokenPool (τ : Type*) where
  count : ℕ
  max : ℕ
  waiters : List τ

/-- What happens at a pool. -/
inductive TokenEvent (τ : Type*)
  /-- A stored token was taken. -/
  | taken (t : τ)
  /-- A taker started to wait. -/
  | parked (t : τ)
  /-- A token was given. -/
  | given
  /-- That token went to a waiting taker. -/
  | handoff (t : τ)
  /-- That token was dropped. -/
  | saturated
  deriving DecidableEq

namespace TokenPool

variable {τ : Type*}

/-- **The moves of a pool.** -/
inductive Step : TokenPool τ → List (TokenEvent τ) → TokenPool τ → Prop
  /-- Nothing happens at this pool. -/
  | idle (c : TokenPool τ) : Step c [] c
  /-- A stored token is taken. -/
  | take {c : TokenPool τ} (t : τ) (h : 0 < c.count) :
      Step c [.taken t] { c with count := c.count - 1 }
  /-- A taker finds no token and waits. -/
  | park {c : TokenPool τ} {t : τ} (h : c.count = 0) (ht : t ∉ c.waiters) :
      Step c [.parked t] { c with waiters := c.waiters ++ [t] }
  /-- A given token goes to the longest waiting taker. -/
  | handoff {c : TokenPool τ} {t : τ} {rest : List τ} (h : c.waiters = t :: rest) :
      Step c [.given, .handoff t] { c with waiters := rest }
  /-- Nobody waits and there is room: a given token is stored. -/
  | store {c : TokenPool τ} (h : c.waiters = []) (hlt : c.count < c.max) :
      Step c [.given] { c with count := c.count + 1 }
  /-- Nobody waits and there is no room: a given token is dropped. -/
  | saturate {c : TokenPool τ} (h : c.waiters = []) (hge : c.max ≤ c.count) :
      Step c [.given, .saturated] c

/-! ## Reading a log -/

/-- The takers served from the store, in order. -/
def takers (l : List (TokenEvent τ)) : List τ :=
  l.filterMap fun e => match e with
    | .taken t => some t
    | _ => none

/-- The takers that had to wait, in order. -/
def parks (l : List (TokenEvent τ)) : List τ :=
  l.filterMap fun e => match e with
    | .parked t => some t
    | _ => none

/-- The takers served by handoff, in order. -/
def handoffs (l : List (TokenEvent τ)) : List τ :=
  l.filterMap fun e => match e with
    | .handoff t => some t
    | _ => none

/-- The number of gives. -/
def gives (l : List (TokenEvent τ)) : ℕ :=
  l.countP fun e => match e with
    | .given => true
    | _ => false

/-- The number of gives that were dropped. -/
def saturations (l : List (TokenEvent τ)) : ℕ :=
  l.countP fun e => match e with
    | .saturated => true
    | _ => false

/-- **Balance.** Along every trace from a pool nobody waits on: tokens taken, handed over, stored and
dropped add up to the initial ones and the given ones; the store stays within its bound; nobody waits
while a token is stored; takers are served in the order in which they started to wait. -/
structure Balance (c : TokenPool τ) (l : List (TokenEvent τ)) (c' : TokenPool τ) : Prop where
  tokens : (takers l).length + (handoffs l).length + c'.count + saturations l = c.count + gives l
  count_le : c'.count ≤ c'.max
  max_eq : c'.max = c.max
  no_waiter : 0 < c'.count → c'.waiters = []
  fifo : parks l = handoffs l ++ c'.waiters

theorem balance_of_trace {c c' : TokenPool τ} {l : List (TokenEvent τ)} (hw : c.waiters = [])
    (hc : c.count ≤ c.max) (h : Trace Step c l c') : Balance c l c' := by
  refine Trace.invariant (I := Balance c) ⟨by simp [takers, handoffs, saturations, gives], hc, rfl,
    fun _ => hw, by simp [parks, handoffs, hw]⟩ ?_ h
  rintro l es y z ⟨htok, hle, hmax, hnw, hfifo⟩ hs
  simp only [takers, handoffs, saturations, gives, parks] at htok hfifo
  cases hs with
  | idle => simpa using ⟨htok, hle, hmax, hnw, hfifo⟩
  | take t hpos =>
      refine ⟨?_, Nat.le_trans (Nat.sub_le _ _) hle, hmax, fun _ => hnw hpos, ?_⟩
      · simp [takers, handoffs, saturations, gives]
        omega
      · simpa [parks, handoffs] using hfifo
  | park h0 ht =>
      refine ⟨?_, hle, hmax, fun hpos => absurd h0 (Nat.pos_iff_ne_zero.mp hpos), ?_⟩
      · simpa [takers, handoffs, saturations, gives] using htok
      · simp [parks, handoffs, hfifo]
  | handoff hcons =>
      rename_i t rest
      refine ⟨?_, hle, hmax, fun hpos => ?_, ?_⟩
      · simp [takers, handoffs, saturations, gives]
        omega
      · exact absurd (hnw hpos) (by simp [hcons])
      · simp [parks, handoffs, hfifo, hcons]
  | store hnil hlt =>
      refine ⟨?_, hlt, hmax, fun _ => hnil, ?_⟩
      · simp [takers, handoffs, saturations, gives]
        omega
      · simpa [parks, handoffs] using hfifo
  | saturate hnil hge =>
      refine ⟨?_, hle, hmax, hnw, ?_⟩
      · simp [takers, handoffs, saturations, gives]
        omega
      · simpa [parks, handoffs] using hfifo

/-! ## One taker's view -/

section Taker

variable [DecidableEq τ]

/-- The event is about taker `t`. -/
def isAbout (t : τ) : TokenEvent τ → Bool
  | .taken u | .parked u | .handoff u => u = t
  | .given | .saturated => false

/-- **What a move means for a taker that does not move itself**: nothing, or it was waiting and the
token was handed to it. -/
theorem Step.bystander {c c' : TokenPool τ} {es : List (TokenEvent τ)} {t : τ} (hs : Step c es c')
    (hnd : c.waiters.Nodup) (htake : .taken t ∉ es) (hpark : .parked t ∉ es) :
    (es.filter (isAbout t) = [] ∧ (t ∈ c'.waiters ↔ t ∈ c.waiters)) ∨
    (es.filter (isAbout t) = [.handoff t] ∧ t ∈ c.waiters ∧ t ∉ c'.waiters) := by
  cases hs with
  | idle => exact Or.inl ⟨rfl, Iff.rfl⟩
  | take u hpos =>
      have hu : u ≠ t := fun hu => htake (by simp [hu])
      exact Or.inl ⟨by simp [isAbout, hu], Iff.rfl⟩
  | @park u h0 hu =>
      have hut : u ≠ t := fun hut => hpark (by simp [hut])
      exact Or.inl ⟨by simp [isAbout, hut], by simp [Ne.symm hut]⟩
  | @handoff u rest hcons =>
      rw [hcons] at hnd ⊢
      obtain ⟨hnot, -⟩ := List.nodup_cons.mp hnd
      by_cases hut : u = t
      · subst hut
        exact Or.inr ⟨by simp [isAbout], List.mem_cons_self, hnot⟩
      · exact Or.inl ⟨by simp [isAbout, hut], by simp [Ne.symm hut]⟩
  | store hnil hlt => exact Or.inl ⟨by simp [isAbout], Iff.rfl⟩
  | saturate hnil hge => exact Or.inl ⟨by simp [isAbout], Iff.rfl⟩

end Taker

/-- A taker that was not waiting waits after a move exactly if the move is its parking. -/
theorem Step.mem_waiters {c c' : TokenPool τ} {es : List (TokenEvent τ)} {t : τ} (hs : Step c es c')
    (ht : t ∉ c.waiters) : t ∈ c'.waiters ↔ .parked t ∈ es := by
  cases hs with
  | idle => simpa using ht
  | take u hpos => simpa using ht
  | park h0 hu => simp [ht]
  | handoff hcons =>
      rw [hcons, List.mem_cons, not_or] at ht
      simpa using ht.2
  | store hnil hlt => simpa using ht
  | saturate hnil hge => simpa using ht

end TokenPool

end Lib
