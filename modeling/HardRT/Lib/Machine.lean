import Mathlib.Data.List.Basic
import Mathlib.Order.Basic

/-! # Runs of a machine given by a partial step function

A machine is a function `step : σ → α → Option σ`: in state `s` the action `a` is either disabled
(`none`) or leads to one next state. A run is a list of actions, so the nondeterminism of a system
(which task moves, when an interrupt arrives) is the choice of that list.

* `exec step s as` — the state after the run `as` from `s`, if every action was enabled.
* `Along step P s as` — every action of the run satisfies `P` in the state it is taken in.
* `exec_invariant` — the induction rule: what holds initially and is kept by every step that satisfies
  `P` holds after every run along `P`.
* `exec_refines` — the refinement rule: a machine whose steps are runs of another one has only runs of
  the other one.
* `exec_rel` — the lockstep rule: machines whose steps match have the same runs.
* `track step upd s g as` — a record kept along a run, with its invariant rule `track_invariant`.
* `Trace R x l y` — an abstract component moves from `x` to `y` while emitting the events `l`.
* `Always R l` — every event of a log satisfies `R` with respect to the events before it. -/

namespace Lib

variable {σ α : Type*}

/-- Run a machine along a list of actions. -/
def exec (step : σ → α → Option σ) : σ → List α → Option σ
  | s, [] => some s
  | s, a :: as => (step s a).bind fun s' => exec step s' as

/-- Every action of the run satisfies `P` in the state it is taken in. -/
def Along (step : σ → α → Option σ) (P : σ → α → Prop) : σ → List α → Prop
  | _, [] => True
  | s, a :: as => P s a ∧ ∀ s', step s a = some s' → Along step P s' as

variable {step : σ → α → Option σ} {P Q : σ → α → Prop}

/-- `Along` is decidable: the run is executed and `P` checked at each action. -/
instance Along.decidable [∀ s a, Decidable (P s a)] :
    ∀ (s : σ) (as : List α), Decidable (Along step P s as)
  | _, [] => isTrue trivial
  | s, a :: as =>
      match hstep : step s a with
      | none =>
          decidable_of_iff (P s a) <| by
            simp [Along, hstep]
      | some s' =>
          haveI := Along.decidable s' as
          decidable_of_iff (P s a ∧ Along step P s' as) <| by
            simp [Along, hstep]

@[simp] theorem exec_nil (s : σ) : exec step s [] = some s := rfl

/-- A run with a first action is that step followed by the rest. -/
theorem exec_cons {s s' : σ} {a : α} {as : List α} :
    exec step s (a :: as) = some s' ↔ ∃ m, step s a = some m ∧ exec step m as = some s' := by
  simp [exec, Option.bind_eq_some_iff]

/-- Runs compose. -/
theorem exec_append {s s' : σ} {as bs : List α} :
    exec step s (as ++ bs) = some s' ↔
      ∃ m, exec step s as = some m ∧ exec step m bs = some s' := by
  induction as generalizing s with
  | nil => simp
  | cons a as ih =>
      simp only [List.cons_append, exec_cons, ih]
      constructor
      · rintro ⟨m, hm, m', hm', hs'⟩
        exact ⟨m', ⟨m, hm, hm'⟩, hs'⟩
      · rintro ⟨m', ⟨m, hm, hm'⟩, hs'⟩
        exact ⟨m, hm, m', hm', hs'⟩

/-- A run that ends in the action `a` is a run followed by one step. -/
theorem exec_concat {s s' : σ} {as : List α} {a : α} :
    exec step s (as ++ [a]) = some s' ↔ ∃ m, exec step s as = some m ∧ step m a = some s' := by
  simp [exec_append, exec_cons]

/-- `Along` splits at any point of the run. -/
theorem along_append {s m : σ} {as bs : List α} (hm : exec step s as = some m) :
    Along step P s (as ++ bs) ↔ Along step P s as ∧ Along step P m bs := by
  induction as generalizing s with
  | nil =>
      obtain rfl : s = m := Option.some.inj hm
      simp [Along]
  | cons a as ih =>
      obtain ⟨s', hs', hrest⟩ := exec_cons.mp hm
      simp only [List.cons_append, Along, hs', Option.some.injEq, forall_eq', ih hrest, and_assoc]

/-- The last action of a run along `P` satisfies `P`. -/
theorem Along.last {s m : σ} {as : List α} {a : α} (hm : exec step s as = some m)
    (h : Along step P s (as ++ [a])) : P m a :=
  ((along_append hm).mp h).2.1

/-- A run along `P` whose actions all imply `Q` is a run along `Q`. -/
theorem Along.mono (hPQ : ∀ s a, P s a → Q s a) :
    ∀ {s : σ} {as : List α}, Along step P s as → Along step Q s as
  | _, [], _ => trivial
  | _, _ :: _, h => ⟨hPQ _ _ h.1, fun s' hs' => (h.2 s' hs').mono hPQ⟩

/-- Two conditions along a run are one. -/
theorem Along.and : ∀ {s : σ} {as : List α}, Along step P s as → Along step Q s as →
    Along step (fun s a => P s a ∧ Q s a) s as
  | _, [], _, _ => trivial
  | _, _ :: _, hP, hQ => ⟨⟨hP.1, hQ.1⟩, fun s' hs' => (hP.2 s' hs').and (hQ.2 s' hs')⟩

/-- A condition that the actions of a run meet in every state holds along it. -/
theorem Along.of_forall : ∀ {as : List α}, (∀ a ∈ as, ∀ s, P s a) → ∀ s : σ, Along step P s as
  | [], _, _ => trivial
  | _ :: _, h, s =>
      ⟨h _ List.mem_cons_self s, fun s' _ =>
        Along.of_forall (fun a ha => h a (List.mem_cons_of_mem _ ha)) s'⟩

/-- What every action meets after the actions before it holds along the run. -/
theorem along_of_take {s : σ} {as : List α}
    (h : ∀ n x a, exec step s (as.take n) = some x → as[n]? = some a → P x a) : Along step P s as := by
  induction as generalizing s with
  | nil => trivial
  | cons b bs ih =>
      refine ⟨h 0 s b rfl rfl, fun s' hs' => ih fun n x a hx ha => h (n + 1) x a ?_ ha⟩
      exact exec_cons.mpr ⟨s', hs', hx⟩

/-- **Invariant rule.** If `I` holds initially and every step that satisfies `P` keeps it, `I` holds
after every run along `P`. -/
theorem exec_invariant {I : σ → Prop}
    (hstep : ∀ s a s', I s → P s a → step s a = some s' → I s') :
    ∀ {s s' : σ} {as : List α}, I s → Along step P s as → exec step s as = some s' → I s'
  | s, s', [], h0, _, hrun => Option.some.inj hrun ▸ h0
  | s, s', a :: as, h0, halong, hrun => by
      obtain ⟨m, hm, hrest⟩ := exec_cons.mp hrun
      exact exec_invariant hstep (hstep s a m h0 halong.1 hm) (halong.2 m hm) hrest

/-- The invariant rule when every step keeps `I`. -/
theorem exec_invariant' {I : σ → Prop} (hstep : ∀ s a s', I s → step s a = some s' → I s')
    {s s' : σ} {as : List α} (h0 : I s) (hrun : exec step s as = some s') : I s' :=
  exec_invariant (P := fun _ _ => True) (fun s a s' h _ => hstep s a s' h) h0
    (Along.of_forall (fun _ _ _ => trivial) s) hrun

/-- **Budget rule.** If every step leaves a budget that is no larger than before, and a counted action
leaves a smaller one, then a run has at most as many counted actions as the budget at its start. -/
theorem exec_countP_le {p : α → Bool} {I : σ → Prop} {budget : σ → ℕ}
    (hstep : ∀ s a s', I s → P s a → step s a = some s' →
      I s' ∧ budget s' + (if p a then 1 else 0) ≤ budget s) :
    ∀ {s s' : σ} {as : List α}, I s → Along step P s as → exec step s as = some s' →
      as.countP p ≤ budget s
  | s, s', [], _, _, _ => Nat.zero_le _
  | s, s', a :: as, h0, halong, hrun => by
      obtain ⟨m, hm, hrest⟩ := exec_cons.mp hrun
      obtain ⟨hI, hle⟩ := hstep s a m h0 halong.1 hm
      have hrec := exec_countP_le hstep hI (halong.2 m hm) hrest
      rw [List.countP_cons]
      omega

/-- **Refinement rule.** Let `f` map the states of one machine to those of a second one. If every step
of the first, from a state in `I` and under its own side condition `G`, is a run of the second along
`P`, then from such a state every run of the first is a run of the second along `P`; and `I` is kept. -/
theorem exec_refines {τ β : Type*} {f : τ → σ} {step' : τ → β → Option τ} {G : τ → β → Prop}
    {I : τ → Prop}
    (hsim : ∀ s b s', I s → G s b → step' s b = some s' →
      I s' ∧ ∃ as, exec step (f s) as = some (f s') ∧ Along step P (f s) as) :
    ∀ {s s' : τ} {bs : List β}, I s → Along step' G s bs → exec step' s bs = some s' →
      I s' ∧ ∃ as, exec step (f s) as = some (f s') ∧ Along step P (f s) as
  | s, s', [], h0, _, hrun => by
      obtain rfl : s = s' := Option.some.inj hrun
      exact ⟨h0, [], rfl, trivial⟩
  | s, s', b :: bs, h0, halong, hrun => by
      obtain ⟨m, hm, hrest⟩ := exec_cons.mp hrun
      obtain ⟨hI, as, has, hP⟩ := hsim s b m h0 halong.1 hm
      obtain ⟨hI', as', has', hP'⟩ := exec_refines hsim hI (halong.2 m hm) hrest
      refine ⟨hI', as ++ as', exec_append.mpr ⟨f m, has, has'⟩, ?_⟩
      exact (along_append has).mpr ⟨hP, hP'⟩

/-! ## Lockstep -/

section Rel

variable {τ : Type*} {step' : τ → α → Option τ} {R : σ → τ → Prop}
  (hstep : ∀ s t a, R s t → Option.Rel R (step s a) (step' t a))

include hstep

/-- **Lockstep rule.** If related states enable the same actions and these lead to related states, then
from related states the same runs are possible, and lead to related states. -/
theorem exec_rel {s : σ} {t : τ} (h : R s t) (as : List α) :
    Option.Rel R (exec step s as) (exec step' t as) := by
  induction as generalizing s t with
  | nil => exact .some h
  | cons a as ih =>
      have ha := hstep s t a h
      simp only [exec]
      generalize step s a = x at ha
      generalize step' t a = y at ha
      cases ha with
      | none => exact .none
      | some hm => exact ih hm

/-- The second machine follows a run of the first. -/
theorem exec_rel_left {s s' : σ} {t : τ} (h : R s t) {as : List α} (hrun : exec step s as = some s') :
    ∃ t', exec step' t as = some t' ∧ R s' t' := by
  have hrel := exec_rel hstep h as
  rw [hrun] at hrel
  generalize exec step' t as = y at hrel
  cases hrel with
  | some hR => exact ⟨_, rfl, hR⟩

/-- The first machine follows a run of the second. -/
theorem exec_rel_right {s : σ} {t t' : τ} (h : R s t) {as : List α}
    (hrun : exec step' t as = some t') : ∃ s', exec step s as = some s' ∧ R s' t' := by
  have hrel := exec_rel hstep h as
  rw [hrun] at hrel
  generalize exec step s as = x at hrel
  cases hrel with
  | some hR => exact ⟨_, rfl, hR⟩

/-- If the relation is a function of the states of the first machine, its runs read through that function
are the runs of the second. -/
theorem exec_map_eq {f : σ → τ} (hf : ∀ s t, R s t → f s = t) {s : σ} {t : τ} (h : R s t)
    (as : List α) : (exec step s as).map f = exec step' t as := by
  have hrel := exec_rel hstep h as
  generalize exec step s as = x at hrel
  generalize exec step' t as = y at hrel
  cases hrel with
  | none => rfl
  | some hR => exact congrArg some (hf _ _ hR)

end Rel

/-! ## Ghost state

What a run has done so far may be recorded in a ghost state that the machine itself does not have;
`upd s a g` is the record after action `a` in state `s`. -/

section Ghost

variable {γ : Type*}

/-- The ghost state after a run. -/
def track (step : σ → α → Option σ) (upd : σ → α → γ → γ) : σ → γ → List α → γ
  | _, g, [] => g
  | s, g, a :: as => (step s a).elim g fun s' => track step upd s' (upd s a g) as

variable {upd : σ → α → γ → γ}

theorem track_cons {s s' : σ} {g : γ} {a : α} {as : List α} (h : step s a = some s') :
    track step upd s g (a :: as) = track step upd s' (upd s a g) as := by
  simp [track, h]

/-- The record of a run that ends in the action `a`. -/
theorem track_concat {s m s' : σ} {g : γ} {as : List α} {a : α} (hm : exec step s as = some m)
    (h : step m a = some s') :
    track step upd s g (as ++ [a]) = upd m a (track step upd s g as) := by
  induction as generalizing s g with
  | nil =>
      obtain rfl : s = m := Option.some.inj hm
      exact track_cons h
  | cons b as ih =>
      obtain ⟨x, hx, hrest⟩ := exec_cons.mp hm
      rw [List.cons_append, track_cons hx, track_cons hx]
      exact ih hrest

/-- The record of a run that goes on. -/
theorem track_append {s m : σ} {g : γ} {as bs : List α} (hm : exec step s as = some m) :
    track step upd s g (as ++ bs) = track step upd m (track step upd s g as) bs := by
  induction as generalizing s g with
  | nil =>
      obtain rfl : s = m := Option.some.inj hm
      rfl
  | cons a as ih =>
      obtain ⟨x, hx, hrest⟩ := exec_cons.mp hm
      rw [List.cons_append, track_cons hx, track_cons hx]
      exact ih hrest

/-- **Growth rule.** What every update does to the record, a run does to it. -/
theorem track_grows {R : γ → γ → Prop} (hrefl : ∀ g, R g g)
    (htrans : ∀ g g' g'', R g g' → R g' g'' → R g g'') (hupd : ∀ s a g, R g (upd s a g)) (s : σ) (g : γ)
    (as : List α) : R g (track step upd s g as) := by
  induction as generalizing s g with
  | nil => exact hrefl g
  | cons a as ih =>
      unfold track
      cases step s a with
      | none => exact hrefl g
      | some s' => exact htrans g _ _ (hupd s a g) (ih s' _)

/-- **Invariant rule with ghost state.** -/
theorem track_invariant {I : σ → γ → Prop}
    (hstep : ∀ s a s' g, I s g → P s a → step s a = some s' → I s' (upd s a g)) :
    ∀ {s s' : σ} {g : γ} {as : List α}, I s g → Along step P s as → exec step s as = some s' →
      I s' (track step upd s g as)
  | s, s', g, [], h0, _, hrun => Option.some.inj hrun ▸ h0
  | s, s', g, a :: as, h0, halong, hrun => by
      obtain ⟨m, hm, hrest⟩ := exec_cons.mp hrun
      rw [track_cons hm]
      exact track_invariant hstep (hstep s a m g h0 halong.1 hm) (halong.2 m hm) hrest

end Ghost

/-! ## Events of a run

A log grows at its end, one event at a time. `Always P l` says that every event of `l` satisfied `P`
with respect to the events before it. -/

section Log

variable {ε : Type*} {R : List ε → ε → Prop}

/-- Every event of the log satisfies `R` with respect to the events before it. -/
def Always (R : List ε → ε → Prop) (l : List ε) : Prop :=
  ∀ l₁ e l₂, l = l₁ ++ e :: l₂ → R l₁ e

/-- The events `es`, appended one by one to `l`, each satisfy `R`. -/
def AlwaysFrom (R : List ε → ε → Prop) : List ε → List ε → Prop
  | _, [] => True
  | l, e :: es => R l e ∧ AlwaysFrom R (l ++ [e]) es

@[simp] theorem always_nil : Always R [] := by
  intro l₁ e l₂ h
  simp at h

/-- Appending one event adds one obligation. -/
theorem always_concat {l : List ε} {e : ε} : Always R (l ++ [e]) ↔ Always R l ∧ R l e := by
  constructor
  · intro h
    refine ⟨fun l₁ e' l₂ hl => ?_, h l e [] rfl⟩
    exact h l₁ e' (l₂ ++ [e]) (by simp [hl])
  · rintro ⟨hl, he⟩ l₁ e' l₂ hsplit
    rcases List.eq_nil_or_concat l₂ with rfl | ⟨l₂', e₂, rfl⟩
    · obtain ⟨rfl, rfl⟩ : l = l₁ ∧ e = e' := by simpa using hsplit
      exact he
    · refine hl l₁ e' l₂' ?_
      have h2 : l ++ [e] = (l₁ ++ e' :: l₂') ++ [e₂] := by simpa using hsplit
      exact (List.append_inj' h2 rfl).1

/-- Appending a batch of events adds the obligations of the batch. -/
theorem always_append {l es : List ε} : Always R (l ++ es) ↔ Always R l ∧ AlwaysFrom R l es := by
  induction es generalizing l with
  | nil => simp [AlwaysFrom]
  | cons e es ih =>
      rw [List.append_cons, ih, always_concat, and_assoc]
      rfl

/-- Events that satisfy `R` whatever came before satisfy it one by one. -/
theorem alwaysFrom_of_forall {es : List ε} (h : ∀ e ∈ es, ∀ l, R l e) (l : List ε) :
    AlwaysFrom R l es := by
  induction es generalizing l with
  | nil => trivial
  | cons e es ih =>
      exact ⟨h e List.mem_cons_self l, ih (fun e' he' => h e' (List.mem_cons_of_mem _ he')) _⟩

/-- The obligations of two lists of events, one after the other. -/
theorem alwaysFrom_append {l es es' : List ε} :
    AlwaysFrom R l (es ++ es') ↔ AlwaysFrom R l es ∧ AlwaysFrom R (l ++ es) es' := by
  induction es generalizing l with
  | nil => simp [AlwaysFrom]
  | cons e es ih => simp only [List.cons_append, AlwaysFrom, ih, and_assoc, List.append_assoc,
      List.nil_append]

/-- What holds of every event holds of the events of a prefix. -/
theorem Always.left {l es : List ε} (h : Always R (l ++ es)) : Always R l :=
  (always_append.mp h).1

end Log

/-! ## Traces of an abstract component

An abstract component is a relation `R x es y`: it may move from `x` to `y`, emitting the events `es`.
A concrete system refines it when the events it logs are those of a trace. -/

section Trace

variable {ε : Type*} {R : σ → List ε → σ → Prop}

/-- The component moves from `x` to `y` in some number of steps that emit `l` in order. -/
inductive Trace (R : σ → List ε → σ → Prop) (x : σ) : List ε → σ → Prop
  | nil : Trace R x [] x
  | snoc {l es : List ε} {y z : σ} : Trace R x l y → R y es z → Trace R x (l ++ es) z

/-- **Invariant rule for traces**: what holds of the empty log and is kept by every step holds of every
trace. -/
theorem Trace.invariant {I : List ε → σ → Prop} {x : σ} (h0 : I [] x)
    (hstep : ∀ l es y z, I l y → R y es z → I (l ++ es) z) {l : List ε} {y : σ}
    (h : Trace R x l y) : I l y := by
  induction h with
  | nil => exact h0
  | snoc _ hs ih => exact hstep _ _ _ _ ih hs

end Trace

end Lib
