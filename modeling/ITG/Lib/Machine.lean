import Mathlib.Logic.Function.Basic
import Mathlib.Tactic.Common

/-!
# Guarded transition systems

A `Machine` is a transition system presented by *guarded actions*: an action `a` is enabled
in a state `s` when `M.guard s a` holds, and firing it yields the state `M.effect s a g` and
appends the observable events `M.emit s a` to the history.  Interleaving concurrency is
modelled by letting the action name the process that moves, so a run of the machine is one
interleaving of its processes.

Runs carry two things besides their endpoints:

* the **history**, the list of all events emitted so far, which is what properties such as
  "at most one call" or "this message came first" are stated over;
* a **discipline** `ok : σ → α → Prop` that every step of the run obeys.  The unrestricted
  runs are those with `ok := M.free`; a restricted run is how "in every run whose steps all
  meet this condition" is said.

The two proof rules are `Machine.Reach.invariant`, which packages the induction over runs, and
`Simulation.reach`, which transfers runs along a forward simulation.
-/

universe u v w u' v' w'

namespace ITG.Lib

/-- A transition system with guarded actions and observable events.  `effect` is only asked
for under the guard, so an action cannot be fired where it is not enabled. -/
structure Machine (σ : Type u) (α : Type v) (ε : Type w) where
  /-- The initial states. -/
  init : σ → Prop
  /-- Whether an action is enabled in a state. -/
  guard : σ → α → Prop
  /-- The state after an enabled action. -/
  effect : (s : σ) → (a : α) → guard s a → σ
  /-- The events an action makes observable. -/
  emit : σ → α → List ε

namespace Machine

variable {σ : Type u} {α : Type v} {ε : Type w}

/-- The discipline that forbids nothing. -/
def free (_ : Machine σ α ε) : σ → α → Prop := fun _ _ ↦ True

/-- `M.Run ok s h t`: firing actions that obey `ok` leads from `s` to `t` with history `h`. -/
inductive Run (M : Machine σ α ε) (ok : σ → α → Prop) (s : σ) : List ε → σ → Prop where
  | refl : Run M ok s [] s
  | step {h : List ε} {t : σ} (a : α) (run : Run M ok s h t) (hok : ok t a) (g : M.guard t a) :
      Run M ok s (h ++ M.emit t a) (M.effect t a g)

/-- `M.Reach ok h s`: some run from an initial state reaches `s` with history `h`. -/
def Reach (M : Machine σ α ε) (ok : σ → α → Prop) (h : List ε) (s : σ) : Prop :=
  ∃ s₀, M.init s₀ ∧ M.Run ok s₀ h s

variable {M : Machine σ α ε} {ok ok' : σ → α → Prop}

/-! ## Runs -/

/-- Runs compose, and their histories concatenate. -/
theorem Run.trans {s t r : σ} {h k : List ε} (h₁ : M.Run ok s h t) (h₂ : M.Run ok t k r) :
    M.Run ok s (h ++ k) r := by
  induction h₂ with
  | refl => simpa using h₁
  | step a _ hok g ih => simpa [List.append_assoc] using ih.step a hok g

/-- A single step is a run. -/
theorem Run.single {s : σ} (a : α) (hok : ok s a) (g : M.guard s a) :
    M.Run ok s (M.emit s a) (M.effect s a g) := by
  simpa using Run.step a (.refl : M.Run ok s [] s) hok g

/-- A run may be extended at its front. -/
theorem Run.head {s t : σ} {h : List ε} (a : α) (hok : ok s a) (g : M.guard s a)
    (run : M.Run ok (M.effect s a g) h t) : M.Run ok s (M.emit s a ++ h) t :=
  (Run.single a hok g).trans run

/-- A run that obeys a discipline obeys every weaker one. -/
theorem Run.mono (hle : ∀ s a, ok s a → ok' s a) {s t : σ} {h : List ε}
    (run : M.Run ok s h t) : M.Run ok' s h t := by
  induction run with
  | refl => exact .refl
  | step a _ hok g ih => exact ih.step a (hle _ _ hok) g

/-- What every disciplined step preserves, every disciplined run preserves. -/
theorem Run.preserves {I : σ → Prop}
    (step : ∀ s a (g : M.guard s a), I s → ok s a → I (M.effect s a g)) {s t : σ} {h : List ε}
    (run : M.Run ok s h t) (hs : I s) : I t := by
  induction run with
  | refl => exact hs
  | step a _ hok g ih => exact step _ a g ih hok

/-- An initial state is reached with the empty history. -/
theorem Reach.init {s : σ} (h : M.init s) : M.Reach ok [] s := ⟨s, h, .refl⟩

/-- Reachability is closed under steps. -/
theorem Reach.step {s : σ} {h : List ε} (a : α) (hr : M.Reach ok h s) (hok : ok s a)
    (g : M.guard s a) : M.Reach ok (h ++ M.emit s a) (M.effect s a g) :=
  let ⟨s₀, h₀, run⟩ := hr
  ⟨s₀, h₀, run.step a hok g⟩

/-- Reachability is closed under runs. -/
theorem Reach.trans {s t : σ} {h k : List ε} (hr : M.Reach ok h s) (run : M.Run ok s k t) :
    M.Reach ok (h ++ k) t :=
  let ⟨s₀, h₀, run₀⟩ := hr
  ⟨s₀, h₀, run₀.trans run⟩

theorem Reach.mono (hle : ∀ s a, ok s a → ok' s a) {s : σ} {h : List ε}
    (hr : M.Reach ok h s) : M.Reach ok' h s :=
  let ⟨s₀, h₀, run⟩ := hr
  ⟨s₀, h₀, run.mono hle⟩

/-- The same, if the weaker discipline is only implied in states that the runs reach. -/
theorem Reach.mono_of {J : σ → Prop} (known : ∀ h s, M.Reach ok h s → J s)
    (hle : ∀ s a, J s → ok s a → ok' s a) {s : σ} {h : List ε} (hr : M.Reach ok h s) :
    M.Reach ok' h s := by
  obtain ⟨s₀, h₀, run⟩ := hr
  induction run with
  | refl => exact .init h₀
  | step a run hok g ih => exact ih.step a (hle _ a (known _ _ ⟨s₀, h₀, run⟩) hok) g

/-! ## Invariants -/

/-- **The invariant rule.**  A property of histories and states that holds initially and is
preserved by every disciplined step holds of every disciplined run. -/
theorem Reach.invariant {I : List ε → σ → Prop} (base : ∀ s, M.init s → I [] s)
    (step : ∀ h s a (g : M.guard s a), I h s → ok s a → I (h ++ M.emit s a) (M.effect s a g))
    {h : List ε} {s : σ} (hr : M.Reach ok h s) : I h s := by
  obtain ⟨s₀, h₀, run⟩ := hr
  induction run with
  | refl => exact base s₀ h₀
  | step a _ hok g ih => exact step _ _ a g ih hok

/-- The invariant rule relative to a property that every run is already known to have. -/
theorem Reach.invariant_of {J I : List ε → σ → Prop}
    (known : ∀ h s, M.Reach ok h s → J h s) (base : ∀ s, M.init s → I [] s)
    (step : ∀ h s a (g : M.guard s a), J h s → J (h ++ M.emit s a) (M.effect s a g) → I h s →
      ok s a → I (h ++ M.emit s a) (M.effect s a g))
    {h : List ε} {s : σ} (hr : M.Reach ok h s) : I h s := by
  obtain ⟨s₀, h₀, run⟩ := hr
  induction run with
  | refl => exact base s₀ h₀
  | @step h t a run hok g ih =>
      have hr : M.Reach ok h t := ⟨s₀, h₀, run⟩
      exact step _ _ a g (known _ _ hr) (known _ _ (hr.step a hok g)) ih hok

/-- The invariant rule for properties of the state alone. -/
theorem Reach.invariant_state {I : σ → Prop} (base : ∀ s, M.init s → I s)
    (step : ∀ s a (g : M.guard s a), I s → ok s a → I (M.effect s a g))
    {h : List ε} {s : σ} (hr : M.Reach ok h s) : I s :=
  hr.invariant (I := fun _ s ↦ I s) base fun _ s a g ↦ step s a g

/-! ## Progress -/

/-- Some disciplined run leads from `s` to a state with the property `Q`.  That no reachable
state is stuck is said as: from every reachable state `Q` can be reached. -/
def CanReach (M : Machine σ α ε) (ok : σ → α → Prop) (s : σ) (Q : σ → Prop) : Prop :=
  ∃ h t, M.Run ok s h t ∧ Q t

theorem CanReach.now {s : σ} {Q : σ → Prop} (hQ : Q s) : M.CanReach ok s Q := ⟨[], s, .refl, hQ⟩

theorem CanReach.of_run {s t : σ} {h : List ε} {Q : σ → Prop} (run : M.Run ok s h t)
    (hc : M.CanReach ok t Q) : M.CanReach ok s Q :=
  let ⟨_, r, run', hQ⟩ := hc
  ⟨_, r, run.trans run', hQ⟩

theorem CanReach.step {s : σ} {Q : σ → Prop} (a : α) (hok : ok s a) (g : M.guard s a)
    (hc : M.CanReach ok (M.effect s a g) Q) : M.CanReach ok s Q := .of_run (.single a hok g) hc

theorem CanReach.mono {s : σ} {Q Q' : σ → Prop} (hc : M.CanReach ok s Q)
    (hQ : ∀ t, Q t → Q' t) : M.CanReach ok s Q' :=
  let ⟨h, t, run, ht⟩ := hc
  ⟨h, t, run, hQ t ht⟩

/-- What every step preserves still holds where the run has led. -/
theorem CanReach.preserves {s : σ} {I Q : σ → Prop} (hc : M.CanReach ok s Q)
    (step : ∀ s a (g : M.guard s a), I s → ok s a → I (M.effect s a g)) (hs : I s) :
    M.CanReach ok s fun t ↦ I t ∧ Q t :=
  let ⟨h, t, run, ht⟩ := hc
  ⟨h, t, run, run.preserves step hs, ht⟩

/-- **The variant rule.**  If every reachable state with `P` but not `Q` leads to one with `P`
and a smaller measure, then `Q` can be reached from every reachable state with `P`. -/
theorem Reach.canReach {P Q : σ → Prop} (μ : σ → ℕ)
    (dec : ∀ h s, M.Reach ok h s → P s → ¬ Q s → M.CanReach ok s fun t ↦ P t ∧ μ t < μ s)
    {h : List ε} {s : σ} (hr : M.Reach ok h s) (hP : P s) : M.CanReach ok s Q := by
  induction hn : μ s using Nat.strongRecOn generalizing h s with
  | _ n ih =>
      subst hn
      by_cases hQ : Q s
      · exact .now hQ
      · obtain ⟨k, t, run, hPt, hlt⟩ := dec h s hr hP hQ
        exact .of_run run (ih (μ t) hlt (hr.trans run) hPt rfl)

/-! ## History variables -/

/-- The machine that records its history in its state. -/
def withHistory (M : Machine σ α ε) : Machine (List ε × σ) α ε where
  init p := p.1 = [] ∧ M.init p.2
  guard p a := M.guard p.2 a
  effect p a g := (p.1 ++ M.emit p.2 a, M.effect p.2 a g)
  emit p a := M.emit p.2 a

/-- Recording the history changes nothing. -/
theorem Reach.withHistory {h : List ε} {s : σ} (hr : M.Reach ok h s) :
    M.withHistory.Reach (fun p ↦ ok p.2) h (h, s) := by
  refine hr.invariant (I := fun h s ↦ M.withHistory.Reach (fun p ↦ ok p.2) h (h, s)) ?_ ?_
  · intro s hs
    exact .init ⟨rfl, hs⟩
  · intro h s a g ih hok
    exact ih.step a hok g

/-- The machine whose history is the list of its actions. -/
def traced (M : Machine σ α ε) : Machine σ α α where
  init := M.init
  guard := M.guard
  effect := M.effect
  emit _ a := [a]

/-- Where the events of an action do not depend on the state, the actions of a run tell its
history. -/
theorem Reach.of_traced {f : α → List ε} (hf : ∀ s a, M.emit s a = f a) {as : List α} {s : σ}
    (hr : M.traced.Reach ok as s) : M.Reach ok (as.flatMap f) s := by
  refine hr.invariant (I := fun as s ↦ M.Reach ok (as.flatMap f) s) ?_ ?_
  · intro s hs
    exact .init hs
  · intro as s a g ih hok
    have hstep := ih.step a hok g
    rw [hf] at hstep
    simpa [traced, List.flatMap_append] using hstep

instance [h : ∀ s a, Decidable (M.guard s a)] : ∀ s a, Decidable (M.traced.guard s a) := h

/-! ## Executing a schedule -/

/-- Fire a list of actions in order, checking guard and discipline at each; `none` if some
action is not enabled or not allowed. -/
def exec (M : Machine σ α ε) [∀ s a, Decidable (M.guard s a)] (ok : σ → α → Prop)
    [∀ s a, Decidable (ok s a)] : σ → List α → Option (List ε × σ)
  | s, [] => some ([], s)
  | s, a :: as =>
      if g : M.guard s a then
        if ok s a then (exec M ok (M.effect s a g) as).map fun p ↦ (M.emit s a ++ p.1, p.2)
        else none
      else none

instance : ∀ s a, Decidable (M.free s a) := fun _ _ ↦ .isTrue trivial

/-- A schedule that executes is a run. -/
theorem Run.of_exec [∀ s a, Decidable (M.guard s a)] [∀ s a, Decidable (ok s a)] :
    ∀ {as : List α} {s t : σ} {h : List ε}, M.exec ok s as = some (h, t) → M.Run ok s h t := by
  intro as
  induction as with
  | nil =>
      intro s t h he
      cases he
      exact .refl
  | cons a as ih =>
      intro s t h he
      simp only [exec] at he
      split at he
      · rename_i g
        split at he
        · rename_i hok
          obtain ⟨⟨k, r⟩, hk, hp⟩ := Option.map_eq_some_iff.1 he
          cases hp
          exact (ih hk).head a hok g
        · cases he
      · cases he

/-- A schedule that executes to a history and a state with the property `P` shows that such a
pair is reachable.  With `P` decidable the hypothesis `he` is closed by evaluation. -/
theorem exists_of_exec (M : Machine σ α ε) [∀ s a, Decidable (M.guard s a)] (ok : σ → α → Prop)
    [∀ s a, Decidable (ok s a)] (P : List ε → σ → Prop) [∀ h s, Decidable (P h s)] {s : σ}
    (hi : M.init s) (as : List α)
    (he : (M.exec ok s as).any (fun p ↦ decide (P p.1 p.2)) = true) :
    ∃ h t, M.Reach ok h t ∧ P h t := by
  obtain ⟨⟨h, t⟩, hrun, hp⟩ := (Option.any_eq_true _ _).1 he
  exact ⟨h, t, ⟨s, hi, .of_exec hrun⟩, of_decide_eq_true hp⟩

/-- The same for a schedule that goes on after another. -/
theorem exists_of_exec_exec (M : Machine σ α ε) [∀ s a, Decidable (M.guard s a)]
    (ok : σ → α → Prop) [∀ s a, Decidable (ok s a)] (P Q : List ε → σ → Prop)
    [∀ h s, Decidable (P h s)] [∀ h s, Decidable (Q h s)] {s : σ} (hi : M.init s) (as bs : List α)
    (he : (M.exec ok s as).any (fun p ↦ decide (P p.1 p.2) &&
      (M.exec ok p.2 bs).any fun q ↦ decide (Q (p.1 ++ q.1) q.2)) = true) :
    ∃ h t k r, M.Reach ok h t ∧ P h t ∧ M.Run ok t k r ∧ Q (h ++ k) r := by
  obtain ⟨⟨h, t⟩, hrun, hp⟩ := (Option.any_eq_true _ _).1 he
  obtain ⟨hp, hq⟩ := Bool.and_eq_true_iff.1 hp
  obtain ⟨⟨k, r⟩, hrun', hq⟩ := (Option.any_eq_true _ _).1 hq
  exact ⟨h, t, k, r, ⟨s, hi, .of_exec hrun⟩, of_decide_eq_true hp, .of_exec hrun',
    of_decide_eq_true hq⟩

/-- The actions that a schedule leaves in the history of `traced` are those of the schedule. -/
theorem exec_traced [∀ s a, Decidable (M.guard s a)] [∀ s a, Decidable (ok s a)] :
    ∀ {as : List α} {s t : σ} {h : List α}, M.traced.exec ok s as = some (h, t) → h = as := by
  intro as
  induction as with
  | nil =>
      intro s t h he
      cases he
      rfl
  | cons a as ih =>
      intro s t h he
      simp only [exec] at he
      split at he
      · split at he
        · obtain ⟨⟨k, r⟩, hk, hp⟩ := Option.map_eq_some_iff.1 he
          cases hp
          exact congrArg (a :: ·) (ih hk)
        · cases he
      · cases he

/-- A schedule that executes is the list of actions of a run. -/
theorem exists_of_schedule (M : Machine σ α ε) [∀ s a, Decidable (M.guard s a)]
    (ok : σ → α → Prop) [∀ s a, Decidable (ok s a)] (P : σ → Prop) [∀ s, Decidable (P s)] {s : σ}
    (hi : M.init s) (as : List α)
    (he : (M.traced.exec ok s as).any (fun p ↦ decide (P p.2)) = true) :
    ∃ t, M.traced.Reach ok as t ∧ P t := by
  obtain ⟨⟨h, t⟩, hrun, hp⟩ := (Option.any_eq_true _ _).1 he
  obtain rfl := exec_traced hrun
  exact ⟨t, ⟨s, hi, .of_exec hrun⟩, of_decide_eq_true hp⟩

end Machine

/-! ## Simulations -/

/-- A forward simulation of `M` by `N` along the relation `R`: every step of `M` is matched by
no step or by one step of `N`, and the events of `M` that `event` keeps are those of `N`.
The disciplines on both sides are part of the data. -/
structure Simulation {σ : Type u} {α : Type v} {ε : Type w} {τ : Type u'} {β : Type v'}
    {δ : Type w'} (M : Machine σ α ε) (okM : σ → α → Prop) (N : Machine τ β δ)
    (okN : τ → β → Prop) (R : σ → τ → Prop) (event : ε → Option δ) : Prop where
  /-- Initial states are related. -/
  init : ∀ s, M.init s → ∃ t, N.init t ∧ R s t
  /-- A step is matched by staying put, or by one step. -/
  step : ∀ s t a (g : M.guard s a), R s t → okM s a →
    (R (M.effect s a g) t ∧ (M.emit s a).filterMap event = []) ∨
    ∃ b, okN t b ∧ ∃ g' : N.guard t b, R (M.effect s a g) (N.effect t b g') ∧
      (M.emit s a).filterMap event = N.emit t b

/-- **Simulations transfer runs**: whatever `M` reaches is related to something `N` reaches,
with the history that `event` keeps. -/
theorem Simulation.reach {σ : Type u} {α : Type v} {ε : Type w} {τ : Type u'} {β : Type v'}
    {δ : Type w'} {M : Machine σ α ε} {okM : σ → α → Prop} {N : Machine τ β δ}
    {okN : τ → β → Prop} {R : σ → τ → Prop} {event : ε → Option δ}
    (sim : Simulation M okM N okN R event) {h : List ε} {s : σ} (hr : M.Reach okM h s) :
    ∃ t, N.Reach okN (h.filterMap event) t ∧ R s t := by
  refine hr.invariant (I := fun h s ↦ ∃ t, N.Reach okN (h.filterMap event) t ∧ R s t) ?_ ?_
  · intro s hs
    obtain ⟨t, ht, hR⟩ := sim.init s hs
    exact ⟨t, .init ht, hR⟩
  · rintro h s a g ⟨t, ht, hR⟩ hok
    rw [List.filterMap_append]
    rcases sim.step s t a g hR hok with ⟨hR', he⟩ | ⟨b, hokb, g', hR', he⟩
    · exact ⟨t, by simpa [he] using ht, hR'⟩
    · exact ⟨_, by simpa [he] using ht.step b hokb g', hR'⟩

end ITG.Lib
