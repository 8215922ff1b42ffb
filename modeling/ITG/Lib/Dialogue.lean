import ITG.Lib.Machine

/-!
# Dialogues

A dialogue is what a client and a server do that take turns: one request is made, it is answered,
the answer is taken, and only then comes the next request.  As a machine it has three states and no
channels.  `rounds_of_reach` says what its histories look like: complete rounds, one after the
other, and at the end at most one that is not complete.  A program that simulates this machine can
neither lose nor repeat nor reorder an answer.
-/

universe u v

namespace ITG.Lib

/-- The events of a dialogue. -/
inductive Turn (Q : Type u) (A : Type v) where
  /-- A request is made. -/
  | ask (q : Q)
  /-- It is answered. -/
  | answer (a : A)
  /-- The answer is taken. -/
  | take (a : A)
deriving DecidableEq

namespace Turn

variable {Q : Type u} {A : Type v}

/-- The request that is made. -/
def ask? : Turn Q A → Option Q
  | .ask q => some q
  | .answer _ | .take _ => none

/-- The answer that is taken. -/
def take? : Turn Q A → Option A
  | .take a => some a
  | .ask _ | .answer _ => none

end Turn

/-- Where a dialogue stands. -/
inductive Dialogue (Q : Type u) (A : Type v) where
  | idle
  | asked (q : Q)
  | answered (q : Q) (a : A)

namespace Dialogue

variable {Q : Type u} {A : Type v}

/-- When a turn may be taken. -/
def guard (answers : Q → A → Prop) : Dialogue Q A → Turn Q A → Prop
  | .idle, .ask _ => True
  | .asked q, .answer a => answers q a
  | .answered _ a, .take a' => a' = a
  | _, _ => False

/-- Where it leads. -/
def next : Dialogue Q A → Turn Q A → Dialogue Q A
  | _, .ask q => .asked q
  | .asked q, .answer a => .answered q a
  | d, .answer _ => d
  | _, .take _ => .idle

/-- The turns of a complete round. -/
def round (r : Q × A) : List (Turn Q A) := [.ask r.1, .answer r.2, .take r.2]

/-- The turns taken in the round that is not complete. -/
def tail : Dialogue Q A → List (Turn Q A)
  | .idle => []
  | .asked q => [.ask q]
  | .answered q a => [.ask q, .answer a]

end Dialogue

/-- A dialogue in which the answers are those that `answers` allows. -/
def dialogue {Q : Type u} {A : Type v} (answers : Q → A → Prop) :
    Machine (Dialogue Q A) (Turn Q A) (Turn Q A) where
  init d := d = .idle
  guard d t := d.guard answers t
  effect d t _ := d.next t
  emit _ t := [t]

namespace Dialogue

variable {Q : Type u} {A : Type v} {answers : Q → A → Prop} {d : Dialogue Q A} {h : List (Turn Q A)}

/-- The answer that has not been taken is one to the request. -/
def Fair (answers : Q → A → Prop) : Dialogue Q A → Prop
  | .answered q a => answers q a
  | _ => True

/-- The history consists of these rounds, and of the one that is not complete. -/
structure Rounds (answers : Q → A → Prop) (rounds : List (Q × A)) (h : List (Turn Q A))
    (d : Dialogue Q A) : Prop where
  history : h = rounds.flatMap round ++ d.tail
  answered : ∀ r ∈ rounds, answers r.1 r.2
  fair : d.Fair answers

/-- A step goes on with the round that is not complete, and completes it if it takes the answer. -/
theorem Rounds.step {rounds : List (Q × A)} {t : Turn Q A} (hr : Rounds answers rounds h d)
    (g : d.guard answers t) : ∃ rounds', Rounds answers rounds' (h ++ [t]) (d.next t) := by
  obtain ⟨hh, hall, hfair⟩ := hr
  match d, t, g with
  | .idle, .ask q, _ => exact ⟨rounds, by simp [hh, tail, next], hall, trivial⟩
  | .asked q, .answer a, g => exact ⟨rounds, by simp [hh, tail, next], hall, g⟩
  | .answered q _, .take a, rfl =>
      refine ⟨rounds ++ [(q, a)], by simp [hh, tail, next, round], fun r hr ↦ ?_, trivial⟩
      rcases List.mem_append.1 hr with hr | hr
      · exact hall r hr
      · obtain rfl := List.mem_singleton.1 hr
        exact hfair

/-- The requests are made in the order of the rounds. -/
theorem Rounds.asks {rounds : List (Q × A)} (hr : Rounds answers rounds h d) :
    rounds.map Prod.fst <+: h.filterMap Turn.ask? := by
  have hround : ∀ rounds : List (Q × A),
      (rounds.flatMap round).filterMap Turn.ask? = rounds.map Prod.fst := by
    intro rounds
    induction rounds with
    | nil => rfl
    | cons r rounds ih =>
        rw [List.flatMap_cons, List.filterMap_append, ih]
        rfl
  rw [hr.history, List.filterMap_append, hround]
  exact List.prefix_append _ _

/-- The answers are taken in the order of the rounds. -/
theorem Rounds.takes {rounds : List (Q × A)} (hr : Rounds answers rounds h d) :
    h.filterMap Turn.take? = rounds.map Prod.snd := by
  have hround : ∀ rounds : List (Q × A),
      (rounds.flatMap round).filterMap Turn.take? = rounds.map Prod.snd := by
    intro rounds
    induction rounds with
    | nil => rfl
    | cons r rounds ih =>
        rw [List.flatMap_cons, List.filterMap_append, ih]
        rfl
  rw [hr.history, List.filterMap_append, hround]
  cases d <;> simp [tail, Turn.take?]

/-- **What a dialogue looks like**: complete rounds, then one that is not. -/
theorem rounds_of_reach {ok : Dialogue Q A → Turn Q A → Prop}
    (hr : (dialogue answers).Reach ok h d) : ∃ rounds, Rounds answers rounds h d := by
  refine hr.invariant (I := fun h d ↦ ∃ rounds, Rounds answers rounds h d) ?_ ?_
  · rintro _ rfl
    exact ⟨[], rfl, fun _ hr ↦ absurd hr List.not_mem_nil, trivial⟩
  · rintro h d t g ⟨rounds, hrounds⟩ -
    exact hrounds.step g

end Dialogue

end ITG.Lib
