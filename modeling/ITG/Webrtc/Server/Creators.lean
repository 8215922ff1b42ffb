import ITG.Webrtc.Server.Registry

/-!
# Who created a stream

A stream is returned by the call of `createStream` that opened its socket, and by no other:
`created_unique`.  So a stream can be said to belong to the caller that created it, although
nothing in the server's state says who that was.
-/

universe u

namespace ITG.Webrtc

open ITG.Lib

namespace Server

variable {K : Type u}

/-- What the history says about the creators of streams. -/
structure Creators (h : List (Event K)) (s : Server K) : Prop where
  lt : ∀ k i, .created k i ∈ h → i < s.opened
  unique : ∀ k k' i, .created k i ∈ h → .created k' i ∈ h → k = k'
  /-- What a call is still at work on has not been returned by any call. -/
  creating : ∀ k i, (s.call k).creating = some i → i < s.opened ∧ ∀ k', .created k' i ∉ h
  alone : ∀ k k' i, (s.call k).creating = some i → (s.call k').creating = some i → k = k'

variable [DecidableEq K] {h : List (Event K)} {s : Server K} {a : Action K}

omit [DecidableEq K] in
/-- Only the last step of `createStream` is seen as a creation. -/
theorem created_mem_emit {k : Caller K} {i : ℕ} (he : .created k i ∈ emit a) : a = .start k i := by
  cases a with
  | start k' j =>
      cases List.mem_singleton.1 he
      rfl
  | lookupNone | delete | connClose | hubClose => cases List.mem_singleton.1 he
  | _ => cases he

/-- A stream is returned by the last step of `createStream`. -/
theorem returned_stream_step (g : s.guard a) {k : Caller K} {i : ℕ}
    (hk : (s.effect a g).call k = .returned (.stream i)) :
    s.call k = .returned (.stream i) ∨ a = .start k i := by
  rcases of_call_step (· = .returned (.stream i)) g hk with hk | ⟨p, q, hp, hm, hq⟩
  · exact .inl hk
  · cases hm with
    | start =>
        cases hq
        exact .inr rfl
    | request => cases (succeeded_streamHandler _).symm.trans (congrArg CallAt.succeeded hq)
    | _ => cases hq

/-- Two calls that are at work on one stream were so before, unless one has just opened it. -/
theorem Creators.alone_step (hc : Creators h s) (g : s.guard a) {k k' : Caller K} {i : ℕ}
    (hk : ((s.effect a g).call k).creating = some i)
    (hk' : ((s.effect a g).call k').creating = some i) : k = k' := by
  rcases creating_step g hk with hs | ⟨rfl, port, p, ha⟩ <;>
    rcases creating_step g hk' with hs' | ⟨hi, port', p', ha'⟩
  · exact hc.alone k k' i hs hs'
  · exact absurd hi (Nat.ne_of_lt (hc.creating k i hs).1)
  · exact absurd (hc.creating k' _ hs').1 (Nat.lt_irrefl _)
  · rw [ha] at ha'
    cases ha'
    rfl

/-- A call that has returned a stream is no longer at work on it. -/
theorem Creators.creating_start (hc : Creators h s) {k : Caller K} {i : ℕ}
    (g : s.guard (.start k i)) (k' : Caller K) :
    ((s.effect (.start k i) g).call k').creating ≠ some i := by
  intro hk'
  have hk : s.call k = .start i := g
  rcases creating_step g hk' with hs | ⟨-, port, p, ha⟩
  · obtain rfl : k = k' := hc.alone k k' i (by rw [hk]; rfl) hs
    simp [effect, CallAt.creating] at hk'
  · cases ha

theorem Creators.step (hc : Creators h s) (g : s.guard a) :
    Creators (h ++ emit a) (s.effect a g) := by
  have hcreated : ∀ {k i}, .created k i ∈ h ++ emit a → .created k i ∈ h ∨ a = .start k i :=
    fun he ↦ (List.mem_append.1 he).imp_right created_mem_emit
  -- a stream that is returned now was being made by that call, so nobody has returned it before
  have hstart : ∀ {k i}, a = .start k i → i < s.opened ∧ ∀ k', .created k' i ∉ h := by
    rintro k i rfl
    have hk : s.call k = .start i := g
    exact hc.creating k i (by rw [hk]; rfl)
  constructor
  case lt =>
    intro k i he
    refine Nat.lt_of_lt_of_le ?_ (opened_le g)
    rcases hcreated he with he | ha
    · exact hc.lt k i he
    · exact (hstart ha).1
  case unique =>
    intro k k' i he he'
    rcases hcreated he with he | ha <;> rcases hcreated he' with he' | ha'
    · exact hc.unique k k' i he he'
    · exact absurd he ((hstart ha').2 k)
    · exact absurd he' ((hstart ha).2 k')
    · cases ha.symm.trans ha'
      rfl
  case creating =>
    intro k i hk
    constructor
    · rcases creating_step g hk with hs | ⟨rfl, port, p, rfl⟩
      · exact Nat.lt_of_lt_of_le (hc.creating k i hs).1 (opened_le g)
      · exact Nat.lt_succ_self _
    · intro k' he
      rcases hcreated he with he | rfl
      · rcases creating_step g hk with hs | ⟨rfl, -⟩
        · exact (hc.creating k i hs).2 k' he
        · exact Nat.lt_irrefl _ (hc.lt k' _ he)
      · exact hc.creating_start g k hk
  case alone =>
    intro k k' i
    exact hc.alone_step g

theorem Creators.new (RTPPort : ℤ) : Creators [] (.new RTPPort : Server K) := by
  have hcreating : ∀ k, ((Server.new RTPPort : Server K).call k).creating = none := by
    intro k
    cases k <;> rfl
  constructor
  case lt => exact nofun
  case unique => exact nofun
  case creating =>
    intro k i hk
    cases (hcreating k).symm.trans hk
  case alone =>
    intro k k' i hk
    cases (hcreating k).symm.trans hk

end Server

open Server

variable {K : Type u} [DecidableEq K] {RTPPort : ℤ} {ok : Server K → Server.Action K → Prop}
  {h : List (Server.Event K)} {s : Server K}

theorem creators_of_reach (hr : (server K RTPPort).Reach ok h s) : s.Creators h := by
  refine hr.invariant (I := fun h s ↦ s.Creators h) ?_ fun _ _ _ g hi _ ↦ hi.step g.2
  rintro _ rfl
  exact .new RTPPort

end ITG.Webrtc
