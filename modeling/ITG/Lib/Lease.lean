import ITG.Lib.History
import ITG.Lib.Machine

/-!
# Exclusive leases

The service that hands out resources: a resource is granted to a holder only while nobody has it,
and only its holder gives it back.  `leases` is this service as a transition system, for resources
in `R` and holders in `C`.  Its state is the partial function from resources to their holders, so
that a resource has one holder at most is not a theorem but the type of the state; what a system
gains by refining it are the facts about histories below.
-/

universe u v

namespace ITG.Lib

/-- What happens to a resource. -/
inductive Lease (R : Type u) (C : Type v) where
  | granted (r : R) (c : C)
  | returned (r : R) (c : C)
deriving DecidableEq

namespace Lease

variable {R : Type u} {C : Type v}

/-- When a lease may begin or end. -/
def guard (s : R → Option C) : Lease R C → Prop
  | .granted r _ => s r = none
  | .returned r c => s r = some c

/-- The holders after an event. -/
def effect [DecidableEq R] (s : R → Option C) : Lease R C → R → Option C
  | .granted r c => Function.update s r (some c)
  | .returned r _ => Function.update s r none

/-- Who holds what after a grant. -/
theorem effect_granted_iff [DecidableEq R] {s : R → Option C} {r r' : R} {c d : C}
    (g : guard s (.granted r c)) :
    effect s (.granted r c) r' = some d ↔ r' = r ∧ d = c ∨ s r' = some d := by
  have hr : s r = none := g
  by_cases hrr : r' = r
  · subst hrr
    simp [effect, hr, eq_comm]
  · simp [effect, hrr]

/-- Who holds what after a return. -/
theorem effect_returned_iff [DecidableEq R] {s : R → Option C} {r r' : R} (c : C) {d : C} :
    effect s (.returned r c) r' = some d ↔ r' ≠ r ∧ s r' = some d := by
  by_cases hrr : r' = r
  · subst hrr
    simp [effect]
  · simp [effect, hrr]

end Lease

variable {R : Type u} {C : Type v} [DecidableEq R]

/-- The lease service.  To begin with nothing is leased. -/
def leases (R : Type u) (C : Type v) [DecidableEq R] :
    Machine (R → Option C) (Lease R C) (Lease R C) where
  init s := s = fun _ ↦ none
  guard := Lease.guard
  effect s a _ := Lease.effect s a
  emit _ a := [a]

namespace Lease

variable {ok : (R → Option C) → Lease R C → Prop} {h : List (Lease R C)} {s : R → Option C}

/-- What is leased was granted to its holder. -/
theorem granted_of_holder (hr : (leases R C).Reach ok h s) :
    ∀ r c, s r = some c → .granted r c ∈ h := by
  refine hr.invariant (I := fun h s ↦ ∀ r c, s r = some c → .granted r c ∈ h) ?_ ?_
  · rintro _ rfl r c hs
    cases hs
  · intro h s a g ih _ r c hs
    cases a with
    | granted r' c' =>
        rcases (effect_granted_iff g).1 hs with ⟨rfl, rfl⟩ | hs
        · exact List.mem_append_right _ List.mem_cons_self
        · exact List.mem_append_left _ (ih r c hs)
    | returned r' c' => exact List.mem_append_left _ (ih r c ((effect_returned_iff c').1 hs).2)

/-- **Nothing is given back that was not granted before**, to the same holder. -/
theorem returned_preceded (hr : (leases R C).Reach ok h s) (r : R) (c : C) :
    PrecededBy (· = .granted r c) (· = .returned r c) h := by
  refine hr.invariant_of (J := fun h s ↦ ∀ r c, s r = some c → .granted r c ∈ h)
    (I := fun h _ ↦ PrecededBy (· = .granted r c) (· = .returned r c) h)
    (fun _ _ hr ↦ granted_of_holder hr) (fun _ _ ↦ .nil) ?_
  rintro h s a g hj - hp -
  apply hp.snoc
  rintro rfl
  exact ⟨_, hj r c g, rfl⟩

/-- What was granted is still leased, or was given back. -/
theorem leased_or_returned (hr : (leases R C).Reach ok h s) :
    ∀ r c, .granted r c ∈ h → s r = some c ∨ .returned r c ∈ h := by
  refine hr.invariant (I := fun h s ↦ ∀ r c, .granted r c ∈ h → s r = some c ∨ .returned r c ∈ h)
    (fun _ _ r c hm ↦ absurd hm List.not_mem_nil) ?_
  intro h s a g ih _ r c hm
  rcases List.mem_append.1 hm with hm | hm
  · rcases ih r c hm with hs | hm
    · cases a with
      | granted r' c' => exact .inl ((effect_granted_iff g).2 (.inr hs))
      | returned r' c' =>
          by_cases hrr : r = r'
          · subst hrr
            cases hs.symm.trans g
            exact .inr (List.mem_append_right _ List.mem_cons_self)
          · exact .inl ((effect_returned_iff c').2 ⟨hrr, hs⟩)
    · exact .inr (List.mem_append_left _ hm)
  · cases List.mem_singleton.1 hm
    exact .inl ((effect_granted_iff g).2 (.inl ⟨rfl, rfl⟩))

end Lease

end ITG.Lib
