import ITG.Ingest.Lockstep

/-!
# The port of a connection

A connection asks for a port at the first dot and keeps it until it ends.  `PortInv` follows the
port through a run: `rtpPort` records the one successful `allocate_port`, every announcement is of
that port, and it is freed once, by the last step of the command task.

One return of the command task frees nothing: the one it takes when the reply to a dot cannot be
sent.  It is not reached, because the frame task is waiting for that reply (`Lockstep`).
-/

namespace ITG.Ingest

open ITG.Lib

/-! ## Announcements -/

theorem announcement_eq (port : UInt16) :
    announcement port = "200 hi. Use UDP port " ++ port.toNat.repr ++ "\n" := rfl

theorem toList_announcement (port : UInt16) : (announcement port).toList =
    "200 hi. Use UDP port ".toList ++ port.toNat.repr.toList ++ "\n".toList := by
  rw [announcement_eq, String.toList_append, String.toList_append]

/-- An announcement names its port. -/
theorem announcement_injective : Function.Injective announcement := by
  intro p q h
  have hl := congrArg String.toList h
  rw [toList_announcement, toList_announcement] at hl
  have hn := List.append_cancel_left (List.append_cancel_right hl)
  rw [Nat.toList_repr, Nat.toList_repr] at hn
  have hd := congrArg (Nat.ofDigitChars 10 · 0) hn
  simp only [Nat.ofDigitChars_ten_toDigits] at hd
  exact UInt16.toNat_inj.1 hd

/-- What does not begin like an announcement is none. -/
theorem ne_announcement {data : String} (h : ¬ "200 hi".toList <+: data.toList)
    (port : UInt16) : data ≠ announcement port := by
  rintro rfl
  apply h
  rw [toList_announcement, List.append_assoc]
  exact List.IsPrefix.trans (by decide +kernel) (List.prefix_append _ _)

/-! ## Points that speak of the port -/

/-- What the program point of the command task says about the port. -/
def CommandAt.PortOk (port : Option UInt16) : CommandAt → Prop
  | .allocate => port = none
  | .reply data .dot => ∃ p, port = some p ∧ data = [announcement p]
  | .reply data .failed => port = none ∧ ∀ p, data ≠ [announcement p]
  | .reply data .loop => ∀ p, data ≠ [announcement p]
  | .freePort p => port = some p
  | .recv | .notifyStart _ | .notifyEnd _ | .returned => True

namespace ConnectionState

variable (s : ConnectionState)

theorem portOk_release : s.release.PortOk s.rtpPort := by
  unfold release
  split
  · assumption
  · trivial

theorem portOk_finish : s.finish.PortOk s.rtpPort := by
  unfold finish
  split
  · trivial
  · exact s.portOk_release

/-- A task that ends without calling `free_port` has no port. -/
theorem rtpPort_of_release (h : s.release = .returned) : s.rtpPort = none := by
  unfold release at h
  split at h
  · cases h
  · assumption

theorem rtpPort_of_finish (h : s.finish = .returned) : s.rtpPort = none := by
  unfold finish at h
  split at h
  · cases h
  · exact s.rtpPort_of_release h

variable {s} {draw : Draw} {c : FtlCommand}

/-- Handling a command does not touch the port until a call returns. -/
theorem rtpPort_handle : (s.handle draw c).1.rtpPort = s.rtpPort := by
  cases c with
  | hmac | ping | disconnect => rfl
  | dot =>
      simp only [handle]
      split <;> rfl
  | connect data =>
      simp only [handle]
      split <;> rfl
  | «attribute» data =>
      simp only [handle]
      split
      · split
        · rename_i hs
          exact (s.frame_setAttribute hs).2.1
        · rfl
      · rfl

theorem portOk_handle : (s.handle draw c).2.PortOk s.rtpPort := by
  cases c with
  | disconnect => exact s.portOk_finish
  | hmac =>
      intro p hp
      exact absurd (congrArg List.length hp) (by simp)
  | ping =>
      intro p hp
      exact ne_announcement (by decide +kernel) p (List.cons.inj hp).1
  | dot =>
      simp only [handle]
      split
      · rename_i port hport
        exact ⟨port, hport, rfl⟩
      · assumption
  | connect data =>
      simp only [handle]
      split <;> trivial
  | «attribute» data =>
      simp only [handle]
      split
      · split
        · intro p hp
          exact ne_announcement (by decide +kernel) p (List.cons.inj hp).1
        · trivial
      · trivial

/-- A command task that ends with a command has no port. -/
theorem rtpPort_of_handle (h : (s.handle draw c).2 = .returned) : s.rtpPort = none := by
  cases c with
  | disconnect => exact s.rtpPort_of_finish h
  | hmac | ping => cases h
  | dot =>
      simp only [handle] at h
      split at h <;> cases h
  | connect data =>
      simp only [handle] at h
      split at h <;> cases h
  | «attribute» data =>
      simp only [handle] at h
      split at h
      · split at h <;> cases h
      · cases h

end ConnectionState

/-! ## The port along a run -/

/-- `allocate_port` returned a port. -/
def Event.isAllocated : Event → Bool
  | .allocated (some _) => true
  | _ => false

/-- `free_port` returned. -/
def Event.isFreed : Event → Bool
  | .freed _ => true
  | _ => false

/-- The event is none of those that `PortInv` speaks of. -/
def Event.Unrelated (e : Event) : Prop :=
  (∀ p, e ≠ .allocated (some p)) ∧ (∀ data, e ≠ .replied data) ∧ ∀ p, e ≠ .freed p

theorem Event.Unrelated.isAllocated {e : Event} (h : e.Unrelated) : e.isAllocated = false := by
  unfold Event.isAllocated
  split
  · exact absurd rfl (h.1 _)
  · rfl

theorem Event.Unrelated.isFreed {e : Event} (h : e.Unrelated) : e.isFreed = false := by
  unfold Event.isFreed
  split
  · exact absurd rfl (h.2.2 _)
  · rfl

namespace Connection

/-- What the history says about the port. -/
structure PortInv (h : List Event) (s : Connection) : Prop where
  /-- `rtpPort` is the port that was allocated. -/
  allocated : ∀ p, .allocated (some p) ∈ h ↔ s.state.rtpPort = some p
  once : h.countP Event.isAllocated = s.state.rtpPort.toList.length
  point : s.command.PortOk s.state.rtpPort
  /-- Announcements are of that port. -/
  announced : ∀ p, .replied [announcement p] ∈ h → s.state.rtpPort = some p
  /-- Only that port is freed, at the end. -/
  freed : ∀ p, .freed p ∈ h → s.state.rtpPort = some p
  freedOnce : h.countP Event.isFreed ≤ 1
  kept : s.command ≠ .returned → h.countP Event.isFreed = 0
  /-- No command task ends with a port that it has not freed. -/
  released : s.command = .returned → ∀ p, s.state.rtpPort = some p → .freed p ∈ h

theorem PortInv.new : PortInv [] new where
  allocated p := by simp [Connection.new, ConnectionState.new]
  once := rfl
  point := trivial
  announced p hp := absurd hp List.not_mem_nil
  freed p hp := absurd hp List.not_mem_nil
  freedOnce := Nat.zero_le 1
  kept _ := rfl
  released := nofun

variable {s t : Connection} {a : Action} {h k : List Event}

/-- A step that keeps the port, and emits nothing that speaks of it. -/
theorem PortInv.of_unrelated (hi : PortInv h s) (hk : ∀ e ∈ k, e.Unrelated)
    (hport : t.state.rtpPort = s.state.rtpPort) (hpoint : t.command.PortOk s.state.rtpPort)
    (hret : t.command = .returned → s.command = .returned ∨ s.state.rtpPort = none)
    (hkept : s.command = .returned → t.command = .returned) : PortInv (h ++ k) t := by
  have hmem (e : Event) (he : ¬ e.Unrelated) : e ∈ h ++ k ↔ e ∈ h := by
    rw [List.mem_append]
    exact ⟨fun hm ↦ hm.elim id fun hm ↦ absurd (hk e hm) he, .inl⟩
  have hcount (p : Event → Bool) (hp : ∀ e ∈ k, p e = false) : (h ++ k).countP p = h.countP p := by
    have hk : k.countP p = 0 := List.countP_eq_zero.2 fun e he ↦ by simp [hp e he]
    rw [List.countP_append, hk, Nat.add_zero]
  have hall := hcount _ fun e he ↦ (hk e he).isAllocated
  have hfree := hcount _ fun e he ↦ (hk e he).isFreed
  constructor
  case allocated =>
    intro p
    rw [hmem _ fun hu ↦ hu.1 p rfl, hport]
    exact hi.allocated p
  case once =>
    rw [hall, hport]
    exact hi.once
  case point =>
    rw [hport]
    exact hpoint
  case announced =>
    intro p hp
    rw [hmem _ fun hu ↦ hu.2.1 _ rfl] at hp
    rw [hport]
    exact hi.announced p hp
  case freed =>
    intro p hp
    rw [hmem _ fun hu ↦ hu.2.2 p rfl] at hp
    rw [hport]
    exact hi.freed p hp
  case freedOnce =>
    rw [hfree]
    exact hi.freedOnce
  case kept =>
    intro hn
    rw [hfree]
    exact hi.kept fun hs ↦ hn (hkept hs)
  case released =>
    intro hr p hp
    rw [hmem _ fun hu ↦ hu.2.2 p rfl]
    rw [hport] at hp
    rcases hret hr with hs | hs
    · exact hi.released hs p hp
    · cases hs.symm.trans hp

theorem portOk_afterAllocate (r : Option UInt16) : (afterAllocate r).PortOk r := by
  cases r with
  | some port => exact ⟨port, rfl, rfl⟩
  | none =>
      refine ⟨rfl, fun p hp ↦ ?_⟩
      exact ne_announcement (by decide +kernel) p (List.cons.inj hp).1

/-- A call of `allocate_port` returns. -/
theorem PortInv.allocate (hi : PortInv h s) {r : Option UInt16} (g : s.guard (.allocate r)) :
    PortInv (h ++ emit (.allocate r)) (s.effect (.allocate r) g) := by
  have hc : s.command = .allocate := g
  have hnone : s.state.rtpPort = none := by
    have hp := hi.point
    rw [hc] at hp
    exact hp
  have hno : ∀ p, .allocated (some p) ∉ h := fun p hp ↦ by
    rw [hi.allocated, hnone] at hp
    cases hp
  have hfreed : h.countP Event.isFreed = 0 := hi.kept (by rw [hc]; exact nofun)
  have honce := hi.once
  rw [hnone] at honce
  constructor
  case allocated =>
    intro p
    simp [emit, effect, hno p, eq_comm]
  case once => cases r <;> simp [emit, effect, List.countP_append, honce, Event.isAllocated]
  case point => exact portOk_afterAllocate r
  case announced =>
    intro p hp
    cases hnone.symm.trans (hi.announced p (by simpa [emit] using hp))
  case freed =>
    intro p hp
    cases hnone.symm.trans (hi.freed p (by simpa [emit] using hp))
  case freedOnce => simp [emit, List.countP_append, hfreed, Event.isFreed]
  case kept =>
    intro _
    simp [emit, List.countP_append, hfreed, Event.isFreed]
  case released =>
    intro hr
    cases r <;> cases hr

/-- A reply is taken. -/
theorem PortInv.reply (hi : PortInv h s) {data : List String} {after : AfterReply}
    (g : s.guard (.reply data after)) :
    PortInv (h ++ emit (.reply data after)) (s.effect (.reply data after) g) := by
  have hpoint := hi.point
  rw [g.1] at hpoint
  have hfreed : h.countP Event.isFreed = 0 := hi.kept (by rw [g.1]; exact nofun)
  constructor
  case allocated =>
    intro p
    simpa [emit, effect] using hi.allocated p
  case once => simpa [emit, effect, List.countP_append, Event.isAllocated] using hi.once
  case point => cases after <;> trivial
  case announced =>
    intro p hp
    rcases List.mem_append.1 hp with hp | hp
    · exact hi.announced p hp
    · obtain rfl : data = [announcement p] := by simpa [emit, eq_comm] using hp
      cases after with
      | loop => exact absurd rfl (hpoint p)
      | failed => exact absurd rfl (hpoint.2 p)
      | dot =>
          obtain ⟨q, hq, he⟩ := hpoint
          obtain rfl : p = q := announcement_injective (List.cons.inj he).1
          exact hq
  case freed =>
    intro p hp
    exact hi.freed p (by simpa [emit] using hp)
  case freedOnce => simp [emit, List.countP_append, hfreed, Event.isFreed]
  case kept =>
    intro _
    simp [emit, List.countP_append, hfreed, Event.isFreed]
  case released =>
    intro hr p hp
    cases after with
    | loop | dot => cases hr
    | failed => cases hpoint.1.symm.trans hp

/-- A call of `free_port` returns. -/
theorem PortInv.freePort (hi : PortInv h s) {port : UInt16} (g : s.guard (.freePort port)) :
    PortInv (h ++ emit (.freePort port)) (s.effect (.freePort port) g) := by
  have hc : s.command = .freePort port := g
  have hport : s.state.rtpPort = some port := by
    have hp := hi.point
    rw [hc] at hp
    exact hp
  have hfreed : h.countP Event.isFreed = 0 := hi.kept (by rw [hc]; exact nofun)
  constructor
  case allocated =>
    intro p
    simpa [emit, effect] using hi.allocated p
  case once => simpa [emit, effect, List.countP_append, Event.isAllocated] using hi.once
  case point => trivial
  case announced =>
    intro p hp
    exact hi.announced p (by simpa [emit] using hp)
  case freed =>
    intro p hp
    rcases List.mem_append.1 hp with hp | hp
    · exact hi.freed p hp
    · obtain rfl : p = port := by simpa [emit] using hp
      exact hport
  case freedOnce => simp [emit, List.countP_append, hfreed, Event.isFreed]
  case kept => exact fun hn ↦ absurd rfl hn
  case released =>
    intro _ p hp
    obtain rfl : port = p := Option.some.inj (hport.symm.trans hp)
    simp [emit]

/-- The step lemma. -/
theorem PortInv.step (hi : PortInv h s) (hl : Lockstep s) (g : s.guard a) :
    PortInv (h ++ emit a) (s.effect a g) := by
  cases a with
  | decode | read chunk | eof | readError | sendCommand c | sendCommandError c
    | recvReplyNone | writeEnd =>
      exact hi.of_unrelated (fun e he ↦ absurd he List.not_mem_nil) rfl hi.point .inl id
  | recvReply data | write item items | writeError item items n =>
      refine hi.of_unrelated (fun e he ↦ ?_) rfl hi.point .inl id
      obtain rfl := List.mem_singleton.1 he
      exact ⟨nofun, nofun, nofun⟩
  | recvCommand c draw =>
      refine hi.of_unrelated (fun e he ↦ ?_) ConnectionState.rtpPort_handle
        ConnectionState.portOk_handle (fun hr ↦ .inr (ConnectionState.rtpPort_of_handle hr))
        fun hr ↦ ?_
      · obtain rfl := List.mem_singleton.1 he
        exact ⟨nofun, nofun, nofun⟩
      · rw [g.1] at hr
        cases hr
  | recvCommandNone =>
      refine hi.of_unrelated (fun e he ↦ absurd he List.not_mem_nil) rfl s.state.portOk_finish
        (fun hr ↦ .inr (s.state.rtpPort_of_finish hr)) fun hr ↦ ?_
      rw [g.1] at hr
      cases hr
  | notifyStart key ok =>
      have hc : s.command = .notifyStart key := g
      refine hi.of_unrelated (fun e he ↦ ?_) rfl (fun p hp ↦ ?_) nofun fun hr ↦ ?_
      · obtain rfl := List.mem_singleton.1 he
        exact ⟨nofun, nofun, nofun⟩
      · exact ne_announcement (by decide +kernel) p (List.cons.inj hp).1
      · rw [hc] at hr
        cases hr
  | allocate r => exact hi.allocate g
  | reply data after => exact hi.reply g
  | replyError data after =>
      have hf := hl.frame_of_handling (by rw [g.1]; rfl)
      rw [g.2] at hf
      cases hf
  | notifyEnd key ok =>
      have hc : s.command = .notifyEnd key := g
      refine hi.of_unrelated (fun e he ↦ ?_) rfl s.state.portOk_release
        (fun hr ↦ .inr (s.state.rtpPort_of_release hr)) fun hr ↦ ?_
      · obtain rfl := List.mem_singleton.1 he
        exact ⟨nofun, nofun, nofun⟩
      · rw [hc] at hr
        cases hr
  | freePort port => exact hi.freePort g

end Connection

variable {h : List Event} {s : Connection} {ok : Connection → Action → Prop}

/-- The run lemma. -/
theorem portInv_of_reach (hr : connection.Reach ok h s) : s.PortInv h := by
  refine hr.invariant_of (I := fun h s ↦ s.PortInv h) (fun _ _ hr ↦ lockstep_of_reach hr) ?_ ?_
  · rintro _ rfl
    exact .new
  · intro h s a g hl _ hi _
    exact hi.step hl g

/-- **Port accounting.**  In every run of a connection: at most one call of `allocate_port`
succeeds; every announcement is of the port it returned; `free_port` is called at most once, and
with that port; a command task that has returned has freed the port, if there was one; and it
never finds the frame task gone when it answers a dot. -/
theorem port_accounting (hr : connection.Reach connection.free h s) :
    h.countP Event.isAllocated ≤ 1 ∧
      (∀ p, .replied [announcement p] ∈ h → .allocated (some p) ∈ h) ∧
      h.countP Event.isFreed ≤ 1 ∧
      (∀ p, .freed p ∈ h → .allocated (some p) ∈ h) ∧
      (s.command = .returned → ∀ p, .allocated (some p) ∈ h → .freed p ∈ h) ∧
      ∀ data, ¬ s.guard (.replyError data .dot) := by
  have hi := portInv_of_reach hr
  refine ⟨?_, fun p hp ↦ ?_, hi.freedOnce, fun p hp ↦ ?_, fun hret p hp ↦ ?_, fun data g ↦ ?_⟩
  · rw [hi.once]
    exact Option.length_toList_le
  · exact (hi.allocated p).2 (hi.announced p hp)
  · exact (hi.allocated p).2 (hi.freed p hp)
  · exact hi.released hret p ((hi.allocated p).1 hp)
  · have hf := (lockstep_of_reach hr).frame_of_handling (by rw [g.1]; rfl)
    rw [g.2] at hf
    cases hf

/-- A streamer that asks for a port twice and leaves. -/
theorem port_accounting_dots :
    ∃ h s, connection.Reach connection.free h s ∧ s.command = .returned ∧
      .replied [announcement 5004] ∈ h ∧ .freed 5004 ∈ h := by
  obtain ⟨h, s, hr, hc, hp⟩ := connection.exists_of_exec connection.free
    (fun h s ↦ s.command = .returned ∧ .replied [announcement 5004] ∈ h) rfl
    [.read (FtlCodec.encode ".\r\n\r\n.\r\n\r\n"), .decode, .sendCommand .dot,
      .recvCommand .dot zeroDraw, .allocate (some 5004), .reply [announcement 5004] .dot,
      .recvReply [announcement 5004], .write (announcement 5004) [], .writeEnd, .decode,
      .sendCommand .dot, .recvCommand .dot zeroDraw, .reply [announcement 5004] .dot,
      .recvReply [announcement 5004], .writeError (announcement 5004) [] 3, .recvCommandNone,
      .freePort 5004]
    (by decide +kernel)
  obtain ⟨-, hann, -, -, hret, -⟩ := port_accounting hr
  exact ⟨h, s, hr, hc, hp, hret hc _ (hann _ hp)⟩

end ITG.Ingest
