import ITG.Lib.Machine
import ITG.Webrtc.Rtp

/-!
# The RTCP packets of a viewer

A viewer answers with RTCP packets to what it receives, on the sender of each track.  The goroutine
that `websocketHandler` starts reads these packets and forgets them.  It reads the two senders in
turn, and waits at each until a packet is there.  So it reads one packet of each, and of the sender
that gets more packets some stay unread: `drained_iff`.

What an unread packet is worth to pion is left open, and so is when one arrives.
-/

universe u

namespace ITG.Webrtc

open ITG.Lib

/-- Program points of the goroutine. -/
inductive DrainAt where
  /-- In `Sender().Read(buf)` of the track. -/
  | read (track : Track)
  | returned
deriving DecidableEq, Repr

/-- The senders of a viewer, and the goroutine that reads from them. -/
structure Drain (P : Type u) where
  /-- What has arrived for the track and has not been read, oldest first. -/
  unread : Track → List P
  loc : DrainAt

namespace Drain

variable {P : Type u}

/-- The start of the goroutine. -/
def new : Drain P := ⟨fun _ ↦ [], .read .video⟩

inductive Action (P : Type u) where
  | arrive (track : Track) (packet : P)
  | read (track : Track) (packet : P)
  /-- `Read` fails, as it does when the sender has been closed. -/
  | readError (track : Track)

/-- The sender that the goroutine reads next. -/
def next : Track → Track
  | .video => .audio
  | .audio => .video

/-- When an action is enabled. -/
def guard (s : Drain P) : Action P → Prop
  | .arrive _ _ => True
  | .read track packet => s.loc = .read track ∧ (s.unread track).head? = some packet
  | .readError track => s.loc = .read track

/-- The state after an enabled action. -/
def effect (s : Drain P) : Action P → Drain P
  | .arrive track packet =>
      { s with unread := Function.update s.unread track (s.unread track ++ [packet]) }
  | .read track _ =>
      { unread := Function.update s.unread track (s.unread track).tail
        loc := .read (next track) }
  | .readError _ => { s with loc := .returned }

/-- The goroutine waits in a `Read`. -/
def Blocked (s : Drain P) : Prop := ∃ track, s.loc = .read track ∧ s.unread track = []

/-- The packets that have arrived for the track. -/
def arrived (track : Track) (as : List (Action P)) : List P :=
  as.filterMap fun
    | .arrive track' packet => if track' = track then some packet else none
    | _ => none

/-- No `Read` fails. -/
def NeverFails (_ : Drain P) : Action P → Prop
  | .readError _ => False
  | _ => True

instance [DecidableEq P] (s : Drain P) : ∀ a, Decidable (s.guard a) := by
  intro a
  apply Action.casesOn (motive := fun a ↦ Decidable (s.guard a)) a <;>
    (intros; dsimp only [guard]; infer_instance)

instance (s : Drain P) : ∀ a, Decidable (s.NeverFails a) := by
  intro a
  apply Action.casesOn (motive := fun a ↦ Decidable (s.NeverFails a)) a <;>
    (intros; dsimp only [NeverFails]; infer_instance)

end Drain

/-- The goroutine and the arrivals as a transition system. -/
def drain (P : Type u) : Machine (Drain P) (Drain.Action P) (Drain.Action P) where
  init s := s = .new
  guard s a := s.guard a
  effect s a _ := s.effect a
  emit _ a := [a]

instance {P : Type u} [DecidableEq P] : ∀ s a, Decidable ((drain P).guard s a) :=
  fun s a ↦ inferInstanceAs (Decidable (s.guard a))

namespace Drain

variable {P : Type u} {as : List (Action P)} {s : Drain P}

/-- The goroutine has read as many packets of one track as of the other, or is one ahead with the
video.  What has been read has arrived and is not unread. -/
def Alternating (as : List (Action P)) (s : Drain P) : Prop :=
  s.loc = .read .video ∧ (arrived .video as).length + (s.unread .audio).length =
      (arrived .audio as).length + (s.unread .video).length ∨
    s.loc = .read .audio ∧ (arrived .video as).length + (s.unread .audio).length =
      (arrived .audio as).length + (s.unread .video).length + 1

/-- A packet that arrives is unread. -/
theorem length_arrived_arrive (as : List (Action P)) (s : Drain P) (track track' : Track)
    (packet : P) :
    (arrived track (as ++ [.arrive track' packet])).length + (s.unread track).length =
      (arrived track as).length + ((s.effect (.arrive track' packet)).unread track).length := by
  by_cases ht : track = track'
  · subst ht
    have harrived :
        arrived track (as ++ [.arrive track packet]) = arrived track as ++ [packet] := by
      simp [arrived]
    have hunread : (s.effect (.arrive track packet)).unread track = s.unread track ++ [packet] :=
      Function.update_self ..
    rw [harrived, hunread, List.length_append, List.length_append]
    omega
  · simp [arrived, effect, ht, Ne.symm ht]

theorem arrived_read (as : List (Action P)) (track track' : Track) (packet : P) :
    arrived track (as ++ [.read track' packet]) = arrived track as := by
  simp [arrived]

/-- A packet that is read leaves one fewer unread. -/
theorem length_unread {track : Track} {packet : P} (h : (s.unread track).head? = some packet) :
    (s.unread track).length = (s.unread track).tail.length + 1 := by
  rw [List.eq_cons_of_mem_head? h]
  rfl

/-- The step lemma. -/
theorem Alternating.step (h : Alternating as s) {a : Action P} (g : s.guard a)
    (hok : s.NeverFails a) : Alternating (as ++ [a]) (s.effect a) := by
  cases a with
  | readError track => exact hok.elim
  | arrive track packet =>
      have hv := length_arrived_arrive as s .video track packet
      have ha := length_arrived_arrive as s .audio track packet
      rcases h with ⟨hl, h⟩ | ⟨hl, h⟩
      · exact .inl ⟨hl, by omega⟩
      · exact .inr ⟨hl, by omega⟩
  | read track packet =>
      have hlen := length_unread g.2
      rcases h with ⟨hl, h⟩ | ⟨hl, h⟩
      · obtain rfl : track = .video := by
          cases g.1.symm.trans hl
          rfl
        refine .inr ⟨rfl, ?_⟩
        rw [arrived_read, arrived_read]
        change _ + (s.unread .audio).length = _ + (s.unread .video).tail.length + 1
        omega
      · obtain rfl : track = .audio := by
          cases g.1.symm.trans hl
          rfl
        refine .inl ⟨rfl, ?_⟩
        rw [arrived_read, arrived_read]
        change _ + (s.unread .audio).tail.length = _ + (s.unread .video).length
        omega

/-- The run lemma. -/
theorem alternating_of_reach (hr : (drain P).Reach NeverFails as s) : Alternating as s := by
  refine hr.invariant (I := Alternating) ?_ ?_
  · rintro _ rfl
    exact .inl ⟨rfl, rfl⟩
  · intro as s a g ih hok
    exact ih.step g hok

/-- **When the senders are drained.**  In every run in which no `Read` fails, whenever the goroutine
waits, no packet is unread if and only if as many packets have arrived for the video as for the
audio, or one more. -/
theorem drained_iff (hr : (drain P).Reach NeverFails as s) (hb : s.Blocked) :
    (∀ track, s.unread track = []) ↔
      (arrived .video as).length = (arrived .audio as).length ∨
        (arrived .video as).length = (arrived .audio as).length + 1 := by
  have hboth : (∀ track, s.unread track = []) ↔
      (s.unread .video).length = 0 ∧ (s.unread .audio).length = 0 := by
    rw [List.length_eq_zero_iff, List.length_eq_zero_iff]
    constructor
    · intro h
      exact ⟨h .video, h .audio⟩
    · rintro ⟨hv, ha⟩ track
      cases track with
      | video => exact hv
      | audio => exact ha
  obtain ⟨track, hloc, hempty⟩ := hb
  have hzero := congrArg List.length hempty
  rw [List.length_nil] at hzero
  rw [hboth]
  rcases alternating_of_reach hr with ⟨hl, h⟩ | ⟨hl, h⟩
  · cases hloc.symm.trans hl
    omega
  · cases hloc.symm.trans hl
    omega

/-- One packet each, and both are read. -/
theorem drained_iff_pair : ∃ as s, (drain Unit).Reach NeverFails as s ∧ s.Blocked ∧
    (arrived .video as).length = 1 ∧ (arrived .audio as).length = 1 ∧
      ∀ track, s.unread track = [] := by
  obtain ⟨as, s, hr, hl, hu, hv, ha⟩ := (drain Unit).exists_of_exec NeverFails
    (fun as s ↦ s.loc = .read .video ∧ s.unread .video = [] ∧ (arrived .video as).length = 1 ∧
      (arrived .audio as).length = 1) rfl
    [.arrive .video (), .read .video (), .arrive .audio (), .read .audio ()] (by decide +kernel)
  have hb : s.Blocked := ⟨.video, hl, hu⟩
  exact ⟨as, s, hr, hb, hv, ha, (drained_iff hr hb).2 (.inl (hv.trans ha.symm))⟩

/-- Two packets for the video and none for the audio: the goroutine waits for the audio, and the
second packet stays unread. -/
theorem undrained : ∃ as s, (drain Unit).Reach NeverFails as s ∧ s.Blocked ∧
    arrived .audio as = [] ∧ s.unread .video = [()] := by
  obtain ⟨as, s, hr, hl, hu, ha, hv⟩ := (drain Unit).exists_of_exec NeverFails
    (fun as s ↦ s.loc = .read .audio ∧ s.unread .audio = [] ∧ arrived .audio as = [] ∧
      s.unread .video = [()]) rfl
    [.arrive .video (), .read .video (), .arrive .video ()] (by decide +kernel)
  exact ⟨as, s, hr, ⟨.audio, hl, hu⟩, ha, hv⟩

end Drain

end ITG.Webrtc
