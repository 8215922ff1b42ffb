import Mathlib.Data.List.TakeWhile
import Mathlib.Tactic.Common

/-!
# Order of events in a history

A history is the list of events of a run, oldest first.  `PrecededBy p q h` is the ordering
property that protocols ask of it: no `q` event occurs before the first `p` event.  It is proved
along a run from what each step appends: a step that emits no `q` event keeps it, and so does
any step taken once a `p` event has occurred.

`MatchedBy f g h` is the property that protocols ask of openings and closings: events carry labels,
and no label is closed more often than it has been opened, at any point of the history.  So every
`g` event can be given an `f` event of its own, with the same label and before it.

`between p q h` is the part of the history that a party sees which enters at a `p` event and leaves
at a `q` event.  It grows with the history while it is open (`IsOpen`), and does not change before
and after.

`Each P h` says that every event stands in the relation `P` to the part of the history before it.

`lastOf f h` is the value that the last event with a value gives.  It is what a variable holds which
these events overwrite, `get_foldl`.  `countSince p q h` counts the `p` events since the last `q`
event.
-/

universe u v

namespace ITG.Lib

variable {ε : Type u} {p q r : ε → Prop} {h k : List ε}

/-- Every event of the history is related to what came before it. -/
def Each (P : List ε → ε → Prop) (h : List ε) : Prop := ∀ h₁ e h₂, h = h₁ ++ e :: h₂ → P h₁ e

namespace Each

variable {P : List ε → ε → Prop}

theorem nil : Each P [] := by
  intro h₁ e h₂ he
  cases h₁ <;> cases he

theorem snoc (hp : Each P h) {e : ε} (he : P h e) : Each P (h ++ [e]) := by
  intro h₁ e' h₂ heq
  rcases List.eq_nil_or_concat h₂ with rfl | ⟨h₃, e'', rfl⟩
  · obtain ⟨rfl, he'⟩ := List.append_inj' heq rfl
    cases he'
    exact he
  · rw [List.concat_eq_append, ← List.cons_append, ← List.append_assoc] at heq
    exact hp h₁ e' h₃ (List.append_inj' heq rfl).1

end Each

/-- Every `q` event of the history is preceded by a `p` event. -/
def PrecededBy (p q : ε → Prop) (h : List ε) : Prop :=
  ∀ h₁ e h₂, h = h₁ ++ e :: h₂ → q e → ∃ d ∈ h₁, p d

namespace PrecededBy

theorem nil : PrecededBy p q [] := Each.nil

/-- Appending one event keeps the order if it is no `q` event or a `p` event came before. -/
theorem snoc (hp : PrecededBy p q h) {e : ε} (he : q e → ∃ d ∈ h, p d) :
    PrecededBy p q (h ++ [e]) :=
  Each.snoc (P := fun h e ↦ q e → ∃ d ∈ h, p d) hp he

/-- The order is kept by whatever is appended, if it holds no `q` event or a `p` event came
before. -/
theorem append (hp : PrecededBy p q h) (hk : ∀ e ∈ k, q e → ∃ d ∈ h, p d) :
    PrecededBy p q (h ++ k) := by
  induction k generalizing h with
  | nil => simpa using hp
  | cons e k ih =>
      rw [List.append_cons]
      apply ih (hp.snoc (hk e List.mem_cons_self))
      intro d hd hq
      obtain ⟨b, hb, hpb⟩ := hk d (List.mem_cons_of_mem _ hd) hq
      exact ⟨b, List.mem_append_left _ hb, hpb⟩

/-- What the order says about an event that occurs. -/
theorem exists_of_mem (hp : PrecededBy p q h) {e : ε} (he : e ∈ h) (hq : q e) : ∃ d ∈ h, p d := by
  obtain ⟨h₁, h₂, rfl⟩ := List.append_of_mem he
  obtain ⟨d, hd, hpd⟩ := hp h₁ e h₂ rfl hq
  exact ⟨d, List.mem_append_left _ hd, hpd⟩

/-- What holds of a history held of what came before. -/
theorem of_append (hp : PrecededBy p q (h ++ k)) : PrecededBy p q h := by
  rintro h₁ e h₂ rfl he
  exact hp h₁ e (h₂ ++ k) (by simp) he

/-- Before what comes before. -/
theorem trans (hp : PrecededBy p q h) (hq : PrecededBy q r h) : PrecededBy p r h := by
  rintro h₁ e h₂ rfl he
  obtain ⟨d, hd, hqd⟩ := hq h₁ e h₂ rfl he
  exact hp.of_append.exists_of_mem hd hqd

/-- The order of some of the events is an order of the events. -/
theorem of_filterMap {δ : Type v} {p' q' : δ → Prop} {f : ε → Option δ}
    (hp : PrecededBy p' q' (h.filterMap f)) (hq : ∀ e, q e → ∃ d, f e = some d ∧ q' d)
    (hpp : ∀ e d, f e = some d → p' d → p e) : PrecededBy p q h := by
  rintro h₁ e h₂ rfl he
  obtain ⟨d, hd, hqd⟩ := hq e he
  rw [List.filterMap_append, List.filterMap_cons_some hd] at hp
  obtain ⟨d', hm, hpd⟩ := hp _ d _ rfl hqd
  obtain ⟨e', hm', he'⟩ := List.mem_filterMap.1 hm
  exact ⟨e', hm', hpp e' d' he' hpd⟩

end PrecededBy

section MatchedBy

variable {κ : Type v} [DecidableEq κ] {f g : ε → Option κ}

/-- Every `g` event of the history has an `f` event of its own before it, with the same label. -/
def MatchedBy (f g : ε → Option κ) (h : List ε) : Prop :=
  ∀ k, k <+: h → ∀ x, (k.filterMap g).count x ≤ (k.filterMap f).count x

namespace MatchedBy

theorem nil : MatchedBy f g ([] : List ε) := by
  intro k hk x
  rw [List.prefix_nil.1 hk]
  exact Nat.le_refl 0

/-- One more event keeps the matching if it closes nothing, or something that is open. -/
theorem snoc (hm : MatchedBy f g h) {e : ε}
    (he : ∀ x, g e = some x → (h.filterMap g).count x < (h.filterMap f).count x) :
    MatchedBy f g (h ++ [e]) := by
  intro k hk x
  rcases List.prefix_concat_iff.1 hk with rfl | hk
  · rw [List.filterMap_append, List.filterMap_append, List.count_append, List.count_append]
    by_cases hx : g e = some x
    · have := he x hx
      simp only [List.filterMap_cons, hx, List.filterMap_nil, List.count_singleton_self]
      omega
    · have h0 : ([e].filterMap g).count x = 0 := by
        cases hg : g e with
        | none => simp [hg]
        | some y =>
            have hy : y ≠ x := fun hy ↦ hx (hg.trans (congrArg some hy))
            simp [hg, hy]
      rw [h0]
      exact Nat.le_add_right_of_le (hm h List.prefix_rfl x)
  · exact hm k hk x

/-- Events that close nothing keep the matching. -/
theorem append (hm : MatchedBy f g h) (hk : ∀ e ∈ k, g e = none) : MatchedBy f g (h ++ k) := by
  induction k generalizing h with
  | nil => simpa using hm
  | cons e k ih =>
      rw [List.append_cons]
      apply ih (hm.snoc fun x hx ↦ ?_) fun d hd ↦ hk d (List.mem_cons_of_mem _ hd)
      rw [hk e List.mem_cons_self] at hx
      cases hx

end MatchedBy

end MatchedBy

section Between

variable {p q : ε → Bool} {e : ε}

/-- The events from the first `p` event on, up to the first `q` event behind it. -/
def between (p q : ε → Bool) (h : List ε) : List ε :=
  (h.dropWhile fun e ↦ !p e).takeWhile fun e ↦ !q e

/-- A `p` event has occurred, and no `q` event from the first one on. -/
def IsOpen (p q : ε → Bool) (h : List ε) : Prop :=
  (h.dropWhile fun e ↦ !p e) ≠ [] ∧ ∀ e ∈ h.dropWhile fun e ↦ !p e, q e = false

theorem not_isOpen_nil : ¬ IsOpen p q [] := fun h ↦ h.1 rfl

/-- Before the first `p` event nothing is open. -/
theorem dropWhile_append_of_none (hh : ∀ e ∈ h, p e = false) :
    ((h ++ k).dropWhile fun e ↦ !p e) = k.dropWhile fun e ↦ !p e :=
  List.dropWhile_append_of_pos fun e he ↦ by simp [hh e he]

theorem dropWhile_append_of_ne (hh : (h.dropWhile fun e ↦ !p e) ≠ []) :
    ((h ++ k).dropWhile fun e ↦ !p e) = (h.dropWhile fun e ↦ !p e) ++ k := by
  rw [List.dropWhile_append, if_neg (by simpa using hh)]

/-- What happens in between is seen. -/
theorem IsOpen.append (ho : IsOpen p q h) (hk : ∀ e ∈ k, q e = false) :
    IsOpen p q (h ++ k) ∧ between p q (h ++ k) = between p q h ++ k := by
  have hd := dropWhile_append_of_ne (k := k) ho.1
  have hall : ∀ e ∈ (h.dropWhile fun e ↦ !p e) ++ k, q e = false := fun e he ↦
    (List.mem_append.1 he).elim (ho.2 e) (hk e)
  refine ⟨⟨?_, ?_⟩, ?_⟩
  · rw [hd]
    exact List.append_ne_nil_of_left_ne_nil ho.1 k
  · rw [hd]
    exact hall
  · rw [between, hd, List.takeWhile_append_of_pos fun e he ↦ by simp [ho.2 e he], between]
    congr 1
    · exact (List.takeWhile_eq_self_iff.2 fun e he ↦ by simp [ho.2 e he]).symm
    · exact List.takeWhile_eq_self_iff.2 fun e he ↦ by simp [hk e he]

/-- What happens before and after is not. -/
theorem not_isOpen_append (hn : ¬ IsOpen p q h) (hk : ∀ e ∈ k, p e = false) :
    ¬ IsOpen p q (h ++ k) ∧ between p q (h ++ k) = between p q h := by
  by_cases hd : (h.dropWhile fun e ↦ !p e) = []
  · have hh : ∀ e ∈ h ++ k, p e = false := fun e he ↦ (List.mem_append.1 he).elim
      (fun he ↦ by simpa using List.dropWhile_eq_nil_iff.1 hd e he) (hk e)
    have hnil : ((h ++ k).dropWhile fun e ↦ !p e) = [] :=
      List.dropWhile_eq_nil_iff.2 fun e he ↦ by simp [hh e he]
    exact ⟨fun ho ↦ ho.1 hnil, by rw [between, between, hnil, hd]⟩
  · have happ := dropWhile_append_of_ne (k := k) hd
    obtain ⟨e, he, hq⟩ : ∃ e ∈ h.dropWhile fun e ↦ !p e, q e = true := by
      by_contra hno
      exact hn ⟨hd, fun e he ↦ Bool.eq_false_iff.2 fun hq ↦ hno ⟨e, he, hq⟩⟩
    refine ⟨fun ho ↦ ?_, ?_⟩
    · have := ho.2 e (by rw [happ]; exact List.mem_append_left _ he)
      cases hq.symm.trans this
    · have hlen : ¬ ((h.dropWhile fun e ↦ !p e).takeWhile fun e ↦ !q e).length =
          (h.dropWhile fun e ↦ !p e).length := fun hl ↦ by
        have heq := (List.takeWhile_prefix fun e ↦ !q e).eq_of_length hl
        have := List.takeWhile_eq_self_iff.1 heq e he
        rw [hq] at this
        cases this
      rw [between, happ, List.takeWhile_append, if_neg hlen, between]

/-- The first `p` event opens. -/
theorem isOpen_append_singleton (hh : ∀ e ∈ h, p e = false) (hp : p e = true) (hq : q e = false) :
    IsOpen p q (h ++ [e]) ∧ between p q (h ++ [e]) = [e] := by
  have hd : ((h ++ [e]).dropWhile fun e ↦ !p e) = [e] := by
    rw [dropWhile_append_of_none hh]
    simp [hp]
  refine ⟨⟨by simp [hd], ?_⟩, by simp [between, hd, hq]⟩
  rw [hd]
  simpa using hq

/-- A `q` event closes. -/
theorem IsOpen.append_singleton (ho : IsOpen p q h) (hq : q e = true) :
    ¬ IsOpen p q (h ++ [e]) ∧ between p q (h ++ [e]) = between p q h := by
  have hd := dropWhile_append_of_ne (k := [e]) ho.1
  refine ⟨fun ho' ↦ ?_, ?_⟩
  · have := ho'.2 e (by rw [hd]; exact List.mem_append_right _ List.mem_cons_self)
    cases hq.symm.trans this
  · have hall : (h.dropWhile fun e ↦ !p e).takeWhile (fun e ↦ !q e) = h.dropWhile fun e ↦ !p e :=
      List.takeWhile_eq_self_iff.2 fun e he ↦ by simp [ho.2 e he]
    rw [between, hd, List.takeWhile_append_of_pos fun e he ↦ by simp [ho.2 e he], between, hall]
    simp [hq]

/-- What is in between is a contiguous part of the history, behind the first `p` event. -/
theorem between_isPrefix (p q : ε → Bool) (h : List ε) :
    (h.takeWhile fun e ↦ !p e) ++ between p q h <+: h := by
  obtain ⟨t, ht⟩ := List.takeWhile_prefix (l := h.dropWhile fun e ↦ !p e) fun e ↦ !q e
  refine ⟨t, ?_⟩
  rw [List.append_assoc, between, ht, List.takeWhile_append_dropWhile]

end Between

section CountSince

variable {p q : ε → Bool} {e : ε}

/-- How many `p` events have occurred since the last `q` event. -/
def countSince (p q : ε → Bool) (h : List ε) : ℕ :=
  h.foldl (fun n e ↦ if q e then 0 else if p e then n + 1 else n) 0

@[simp] theorem countSince_nil : countSince p q [] = 0 := rfl

theorem countSince_append_singleton : countSince p q (h ++ [e]) =
    if q e then 0 else if p e then countSince p q h + 1 else countSince p q h := by
  rw [countSince, List.foldl_append]
  rfl

end CountSince

section LastOf

variable {β : Type v} {f : ε → Option β} {e : ε}

/-- The value that the last event with a value gives. -/
def lastOf (f : ε → Option β) (h : List ε) : Option β := (h.filterMap f).getLast?

@[simp] theorem lastOf_nil : lastOf f [] = none := rfl

@[simp] theorem lastOf_singleton : lastOf f [e] = f e := by
  cases he : f e <;> simp [lastOf, he]

theorem lastOf_append : lastOf f (h ++ k) = (lastOf f k).or (lastOf f h) := by
  rw [lastOf, List.filterMap_append, List.getLast?_append]
  rfl

/-- What a variable holds that some of the events overwrite. -/
theorem get_foldl {σ : Type*} {step : σ → ε → σ} (get : σ → β)
    (hstep : ∀ s e, get (step s e) = (f e).getD (get s)) (h : List ε) (s : σ) :
    get (h.foldl step s) = (lastOf f h).getD (get s) := by
  induction h generalizing s with
  | nil => rfl
  | cons e h ih =>
      rw [List.foldl_cons, ih, hstep, ← List.singleton_append, lastOf_append, lastOf_singleton]
      cases lastOf f h <;> rfl

end LastOf

end ITG.Lib
