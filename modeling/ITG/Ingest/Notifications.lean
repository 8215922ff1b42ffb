import ITG.Ingest.Lockstep
import ITG.Lib.History

/-!
# Start and end notifications

The command task tells the auth service when a stream starts, at each `Connect`, and when it ends,
on its way out.  What it remembers in between is one field, `streamKey`, which the next `Connect`
overwrites; and of its ways out, the one after a failed `allocate_port` tells nobody.

`NotifyInv` follows the field and the calls through a run.  No end comes without its start
(`matched_of_reach`), and once the task has returned the calls pair up exactly if there was at most
one `Connect`, and no allocation failed after it (`notifications_paired_iff`).
-/

namespace ITG.Ingest

open ITG.Lib

/-! ## Notifications in a history -/

/-- The stream key of a `Connect` command that carries one, and a channel id. -/
def FtlCommand.streamKey? : FtlCommand → Option String
  | .connect data =>
      match data.get "stream_key", data.get "channel_id" with
      | some key, some _ => some key
      | _, _ => none
  | _ => none

/-- The key of a `Connect` that was received. -/
def Event.connect? : Event → Option String
  | .received c => c.streamKey?
  | _ => none

/-- The key of a call of `notify_stream_start`. -/
def Event.start? : Event → Option String
  | .notifiedStart key _ => some key
  | _ => none

/-- The key of a call of `notify_stream_end`. -/
def Event.end? : Event → Option String
  | .notifiedEnd key _ => some key
  | _ => none

/-- The event is no `Connect`, no notification and no failed allocation. -/
def Event.Quiet (e : Event) : Prop :=
  e.connect? = none ∧ e.start? = none ∧ e.end? = none ∧ e ≠ .allocated none

/-- The keys of the `Connect` commands received, oldest first. -/
def connects (h : List Event) : List String := h.filterMap Event.connect?

/-- The keys that `notify_stream_start` was called with. -/
def starts (h : List Event) : List String := h.filterMap Event.start?

/-- The keys that `notify_stream_end` was called with. -/
def ends (h : List Event) : List String := h.filterMap Event.end?

/-- For every key there are as many ends as starts, and each end comes after a start of its own. -/
def Paired (h : List Event) : Prop :=
  (∀ key, (ends h).count key = (starts h).count key) ∧ MatchedBy Event.start? Event.end? h

@[simp] theorem connects_append (h k : List Event) : connects (h ++ k) = connects h ++ connects k :=
  List.filterMap_append

@[simp] theorem starts_append (h k : List Event) : starts (h ++ k) = starts h ++ starts k :=
  List.filterMap_append

@[simp] theorem ends_append (h k : List Event) : ends (h ++ k) = ends h ++ ends k :=
  List.filterMap_append

@[simp] theorem connects_singleton (e : Event) : connects [e] = e.connect?.toList := by
  cases h : e.connect? <;> simp [connects, h]

@[simp] theorem starts_singleton (e : Event) : starts [e] = e.start?.toList := by
  cases h : e.start? <;> simp [starts, h]

@[simp] theorem ends_singleton (e : Event) : ends [e] = e.end?.toList := by
  cases h : e.end? <;> simp [ends, h]

/-! ## Points that speak of the notifications -/

/-- The key of the `notify_stream_start` that is under way. -/
def CommandAt.starting : CommandAt → Option String
  | .notifyStart key => some key
  | _ => none

/-- What the program point of the command task says about the ends notified so far, `key` being
its `streamKey`, and about whether an allocation has failed. -/
def CommandAt.EndsOk (key : Option String) (ended : List String) (failed : Prop) :
    CommandAt → Prop
  | .notifyEnd k => key = some k ∧ ended = [] ∧ ¬ failed
  | .freePort _ => ended = key.toList ∧ ¬ failed
  | .reply _ .failed => ended = [] ∧ failed
  | .returned => (ended = [] ∧ failed) ∨ (ended = key.toList ∧ ¬ failed)
  | .recv | .notifyStart _ | .allocate | .reply _ .loop | .reply _ .dot => ended = [] ∧ ¬ failed

namespace ConnectionState

variable (s : ConnectionState) {draw : Draw} {c : FtlCommand}

/-- A `Connect` overwrites the stream key, and no other command touches it. -/
theorem streamKey_handle : (s.handle draw c).1.streamKey = c.streamKey?.or s.streamKey := by
  cases c with
  | hmac | ping | disconnect => rfl
  | dot =>
      simp only [handle]
      split <;> rfl
  | connect data =>
      simp only [handle, FtlCommand.streamKey?]
      cases data.get "stream_key" <;> cases data.get "channel_id" <;> rfl
  | «attribute» data =>
      simp only [handle]
      split
      · split
        · rename_i hs
          exact (s.frame_setAttribute hs).2.2
        · rfl
      · rfl

/-- A `Connect` is announced at once. -/
theorem starting_handle : (s.handle draw c).2.starting = c.streamKey? := by
  cases c with
  | hmac | ping => rfl
  | disconnect =>
      simp only [handle, finish, release]
      repeat' split
      all_goals rfl
  | dot =>
      simp only [handle]
      split <;> rfl
  | connect data =>
      simp only [handle, FtlCommand.streamKey?]
      cases data.get "stream_key" <;> cases data.get "channel_id" <;> rfl
  | «attribute» data =>
      simp only [handle]
      repeat' split
      all_goals rfl

theorem starting_release : s.release.starting = none := by
  unfold release
  split <;> rfl

theorem starting_finish : s.finish.starting = none := by
  unfold finish
  split
  · rfl
  · exact s.starting_release

theorem endsOk_release {ended : List String} {failed : Prop} (he : ended = s.streamKey.toList)
    (hf : ¬ failed) : s.release.EndsOk s.streamKey ended failed := by
  unfold release
  split
  · exact ⟨he, hf⟩
  · exact .inr ⟨he, hf⟩

theorem endsOk_finish {failed : Prop} (hf : ¬ failed) : s.finish.EndsOk s.streamKey [] failed := by
  unfold finish
  split
  · rename_i key hk
    exact ⟨hk, rfl, hf⟩
  · rename_i hk
    exact s.endsOk_release (by rw [hk]; rfl) hf

/-- A command that is taken up finds no end notified, and notifies none. -/
theorem endsOk_handle {failed : Prop} (hf : ¬ failed) :
    (s.handle draw c).2.EndsOk (s.handle draw c).1.streamKey [] failed := by
  cases c with
  | hmac | ping => exact ⟨rfl, hf⟩
  | disconnect => exact s.endsOk_finish hf
  | dot =>
      simp only [handle]
      split <;> exact ⟨rfl, hf⟩
  | connect data =>
      simp only [handle]
      split <;> exact ⟨rfl, hf⟩
  | «attribute» data =>
      simp only [handle]
      repeat' split
      all_goals exact ⟨rfl, hf⟩

end ConnectionState

/-! ## Notifications along a run -/

namespace Connection

/-- What the history says about the notifications. -/
structure NotifyInv (h : List Event) (s : Connection) : Prop where
  /-- Every `Connect` has been announced, up to the one that is being handled. -/
  started : connects h = starts h ++ s.command.starting.toList
  /-- `streamKey` is the key of the last `Connect`. -/
  key : s.state.streamKey = (connects h).getLast?
  point : s.command.EndsOk s.state.streamKey (ends h) (.allocated none ∈ h)
  /-- No end comes before its start. -/
  matched : MatchedBy Event.start? Event.end? h

theorem NotifyInv.new : NotifyInv [] new where
  started := rfl
  key := rfl
  point := ⟨rfl, List.not_mem_nil⟩
  matched := .nil

variable {s t : Connection} {a : Action} {h k : List Event}

/-- A step that emits nothing that `NotifyInv` speaks of, and keeps the stream key. -/
theorem NotifyInv.of_quiet (hi : NotifyInv h s) (hk : ∀ e ∈ k, e.Quiet)
    (hkey : t.state.streamKey = s.state.streamKey)
    (hstart : t.command.starting = s.command.starting)
    (hpoint : t.command.EndsOk s.state.streamKey (ends h) (.allocated none ∈ h)) :
    NotifyInv (h ++ k) t := by
  have hconnects : connects k = [] := List.filterMap_eq_nil_iff.2 fun e he ↦ (hk e he).1
  have hstarts : starts k = [] := List.filterMap_eq_nil_iff.2 fun e he ↦ (hk e he).2.1
  have hends : ends k = [] := List.filterMap_eq_nil_iff.2 fun e he ↦ (hk e he).2.2.1
  have hfailed : .allocated none ∈ h ++ k ↔ .allocated none ∈ h := by
    rw [List.mem_append]
    exact ⟨fun hm ↦ hm.elim id fun hm ↦ absurd rfl (hk _ hm).2.2.2, .inl⟩
  constructor
  case started =>
    rw [connects_append, starts_append, hconnects, hstarts, List.append_nil, List.append_nil,
      hstart]
    exact hi.started
  case key =>
    rw [connects_append, hconnects, List.append_nil, hkey]
    exact hi.key
  case point =>
    rw [ends_append, hends, List.append_nil, hkey, hfailed]
    exact hpoint
  case matched => exact hi.matched.append fun e he ↦ (hk e he).2.2.1

/-- A command is taken up. -/
theorem NotifyInv.recvCommand (hi : NotifyInv h s) {c : FtlCommand} {draw : Draw}
    (g : s.guard (.recvCommand c draw)) :
    NotifyInv (h ++ emit (.recvCommand c draw)) (s.effect (.recvCommand c draw) g) := by
  have hstarted := hi.started
  have hpoint := hi.point
  rw [g.1] at hstarted hpoint
  obtain ⟨hends, hfailed⟩ := hpoint
  have hkeys : connects (emit (.recvCommand c draw)) = c.streamKey?.toList := connects_singleton _
  constructor
  case started =>
    have hstart : (s.effect (.recvCommand c draw) g).command.starting = c.streamKey? :=
      s.state.starting_handle
    rw [connects_append, hkeys, hstarted, starts_append, hstart]
    simp [emit, Event.start?, CommandAt.starting]
  case key =>
    rw [connects_append, hkeys, List.getLast?_append, ← hi.key]
    have hkey : (s.effect (.recvCommand c draw) g).state.streamKey =
        c.streamKey?.or s.state.streamKey :=
      s.state.streamKey_handle
    rw [hkey]
    cases c.streamKey? <;> rfl
  case point =>
    have he : ends (h ++ emit (.recvCommand c draw)) = [] := by
      rw [ends_append, hends, List.nil_append]
      exact ends_singleton _
    rw [he]
    exact s.state.endsOk_handle (by simpa [emit] using hfailed)
  case matched => exact hi.matched.append fun e he ↦ by rw [List.mem_singleton.1 he]; rfl

/-- A call of `notify_stream_start` returns. -/
theorem NotifyInv.notifyStart (hi : NotifyInv h s) {key : String} {ok : Bool}
    (g : s.guard (.notifyStart key ok)) :
    NotifyInv (h ++ emit (.notifyStart key ok)) (s.effect (.notifyStart key ok) g) := by
  have hc : s.command = .notifyStart key := g
  have hstarted := hi.started
  have hpoint := hi.point
  rw [hc] at hstarted hpoint
  constructor
  case started =>
    rw [connects_append, hstarted, starts_append]
    simp [emit, effect, Event.connect?, Event.start?, CommandAt.starting]
  case key =>
    rw [connects_append]
    simpa [emit, effect, Event.connect?] using hi.key
  case point =>
    rw [ends_append]
    simpa [emit, effect, Event.end?, CommandAt.EndsOk] using hpoint
  case matched => exact hi.matched.append fun e he ↦ by rw [List.mem_singleton.1 he]; rfl

/-- A call of `allocate_port` returns. -/
theorem NotifyInv.allocate (hi : NotifyInv h s) {r : Option UInt16} (g : s.guard (.allocate r)) :
    NotifyInv (h ++ emit (.allocate r)) (s.effect (.allocate r) g) := by
  have hc : s.command = .allocate := g
  have hstarted := hi.started
  have hpoint := hi.point
  rw [hc] at hstarted hpoint
  obtain ⟨hends, hfailed⟩ := hpoint
  constructor
  case started =>
    rw [connects_append, hstarted, starts_append]
    cases r <;> simp [emit, effect, Event.connect?, Event.start?, CommandAt.starting, afterAllocate,
      ConnectionState.announce]
  case key =>
    rw [connects_append]
    simpa [emit, effect, Event.connect?] using hi.key
  case point =>
    rw [ends_append, hends, List.nil_append]
    cases r with
    | none => exact ⟨ends_singleton _, List.mem_append_right _ List.mem_cons_self⟩
    | some port => exact ⟨ends_singleton _, by simpa [emit] using hfailed⟩
  case matched => exact hi.matched.append fun e he ↦ by rw [List.mem_singleton.1 he]; rfl

/-- A call of `notify_stream_end` returns. -/
theorem NotifyInv.notifyEnd (hi : NotifyInv h s) {key : String} {ok : Bool}
    (g : s.guard (.notifyEnd key ok)) :
    NotifyInv (h ++ emit (.notifyEnd key ok)) (s.effect (.notifyEnd key ok) g) := by
  have hc : s.command = .notifyEnd key := g
  have hstarted := hi.started
  have hpoint := hi.point
  rw [hc] at hstarted hpoint
  obtain ⟨hkey, hends, hfailed⟩ := hpoint
  -- the stream that ends is one that was started
  have hmem : key ∈ starts h := by
    have hlast := hkey.symm.trans hi.key
    rw [hstarted] at hlast
    simpa [CommandAt.starting] using List.mem_of_getLast? hlast.symm
  constructor
  case started =>
    rw [connects_append, hstarted, starts_append]
    have hstart : (s.effect (.notifyEnd key ok) g).command.starting = none :=
      s.state.starting_release
    rw [hstart]
    simp [emit, Event.connect?, Event.start?, CommandAt.starting]
  case key =>
    rw [connects_append]
    simpa [emit, effect, Event.connect?] using hi.key
  case point =>
    refine s.state.endsOk_release ?_ (by simpa [emit] using hfailed)
    rw [ends_append, hends, List.nil_append, hkey]
    exact ends_singleton _
  case matched =>
    refine hi.matched.snoc fun x hx ↦ ?_
    obtain rfl : key = x := Option.some.inj hx
    change (ends h).count key < (starts h).count key
    rw [hends]
    exact List.count_pos_iff.2 hmem

/-- The step lemma. -/
theorem NotifyInv.step (hi : NotifyInv h s) (hl : Lockstep s) (g : s.guard a) :
    NotifyInv (h ++ emit a) (s.effect a g) := by
  have hpoint := hi.point
  cases a with
  | decode | read chunk | eof | readError | sendCommand c | sendCommandError c
    | recvReplyNone | writeEnd =>
      exact hi.of_quiet (fun e he ↦ absurd he List.not_mem_nil) rfl rfl hpoint
  | recvReply data | write item items | writeError item items n =>
      refine hi.of_quiet (fun e he ↦ ?_) rfl rfl hpoint
      obtain rfl := List.mem_singleton.1 he
      exact ⟨rfl, rfl, rfl, nofun⟩
  | recvCommand c draw => exact hi.recvCommand g
  | recvCommandNone =>
      rw [g.1] at hpoint
      refine hi.of_quiet (fun e he ↦ absurd he List.not_mem_nil) rfl ?_ ?_
      · rw [g.1]
        exact s.state.starting_finish
      · rw [hpoint.1]
        exact s.state.endsOk_finish hpoint.2
  | notifyStart key ok => exact hi.notifyStart g
  | allocate r => exact hi.allocate g
  | reply data after =>
      rw [g.1] at hpoint
      refine hi.of_quiet (fun e he ↦ ?_) rfl ?_ ?_
      · obtain rfl := List.mem_singleton.1 he
        exact ⟨rfl, rfl, rfl, nofun⟩
      · rw [g.1]
        cases after <;> rfl
      · cases after with
        | loop | dot => exact hpoint
        | failed => exact .inl hpoint
  | replyError data after =>
      have hf := hl.frame_of_handling (by rw [g.1]; rfl)
      rw [g.2] at hf
      cases hf
  | notifyEnd key ok => exact hi.notifyEnd g
  | freePort port =>
      have hc : s.command = .freePort port := g
      rw [hc] at hpoint
      refine hi.of_quiet (fun e he ↦ ?_) rfl ?_ (.inr hpoint)
      · obtain rfl := List.mem_singleton.1 he
        exact ⟨rfl, rfl, rfl, nofun⟩
      · rw [hc]
        rfl

end Connection

variable {h : List Event} {s : Connection} {ok : Connection → Action → Prop}

/-- The run lemma. -/
theorem notifyInv_of_reach (hr : connection.Reach ok h s) : s.NotifyInv h := by
  refine hr.invariant_of (I := fun h s ↦ s.NotifyInv h) (fun _ _ hr ↦ lockstep_of_reach hr) ?_ ?_
  · rintro _ rfl
    exact .new
  · intro h s a g hl _ hi _
    exact hi.step hl g

/-- No run notifies an end before its start. -/
theorem matched_of_reach (hr : connection.Reach ok h s) :
    MatchedBy Event.start? Event.end? h := (notifyInv_of_reach hr).matched

/-- **Notification pairing**, and when it holds: once the command task has returned, there are as
many ends as starts for every stream key, each after a start of its own, exactly if at most one
`Connect` was received, and no allocation failed if one was. -/
theorem notifications_paired_iff (hr : connection.Reach connection.free h s)
    (hret : s.command = .returned) :
    Paired h ↔ (connects h).length ≤ 1 ∧ (connects h ≠ [] → .allocated none ∉ h) := by
  have hi := notifyInv_of_reach hr
  have hstarted := hi.started
  have hpoint := hi.point
  rw [hret] at hstarted hpoint
  rw [hi.key] at hpoint
  have hs : starts h = connects h := by simpa [CommandAt.starting] using hstarted.symm
  -- at most one end has been notified, that of the last `Connect`
  have hlast : (ends h).length ≤ 1 := by
    rcases hpoint with ⟨he, -⟩ | ⟨he, -⟩
    · simp [he]
    · rw [he]
      exact Option.length_toList_le
  rw [Paired, hs, and_iff_left hi.matched, ← List.perm_iff_count]
  constructor
  · intro hp
    refine ⟨hp.length_eq ▸ hlast, fun hne hf ↦ hne ?_⟩
    rcases hpoint with ⟨he, -⟩ | ⟨-, hn⟩
    · rw [he] at hp
      exact hp.nil_eq.symm
    · exact absurd hf hn
  · rintro ⟨hle, hf⟩
    rcases hpoint with ⟨he, hfailed⟩ | ⟨he, -⟩
    · have hnil : connects h = [] := not_not.1 fun hne ↦ hf hne hfailed
      rw [he, hnil]
    · rw [he]
      match hc : connects h, hle with
      | [], _ => rfl
      | [key], _ => rfl

/-- The steps by which a streamer connects with its key; `r` is what the auth service says. -/
def connectSteps (r : Bool) : List Action :=
  [.read (FtlCodec.encode "CONNECT 1 $key\r\n\r\n"), .decode,
    .sendCommand (.connect [("stream_key", "key"), ("channel_id", "1")]),
    .recvCommand (.connect [("stream_key", "key"), ("channel_id", "1")]) zeroDraw,
    .notifyStart "key" r, .reply ["200\n"] .loop, .recvReply ["200\n"], .write "200\n" [],
    .writeEnd]

/-- A streamer that connects once, and leaves. -/
theorem notifications_paired_once :
    ∃ h s, connection.Reach connection.free h s ∧ s.command = .returned ∧
      starts h = ["key"] ∧ Paired h := by
  obtain ⟨h, s, hr, hret, hc, hs, hf⟩ := connection.exists_of_exec connection.free
    (fun h s ↦ s.command = .returned ∧ connects h = ["key"] ∧ starts h = ["key"] ∧
      .allocated none ∉ h) rfl
    (connectSteps true ++ [Action.eof, .recvCommandNone, .notifyEnd "key" true])
    (by decide +kernel)
  exact ⟨h, s, hr, hret, hs, (notifications_paired_iff hr hret).2 ⟨by rw [hc]; decide, fun _ ↦ hf⟩⟩

/-- A streamer connects with a key, and no port can be allocated: the notification that is made
succeeds, and the end of the stream is never notified. -/
theorem unended_stream :
    ∃ h s, connection.Reach connection.free h s ∧ s.command = .returned ∧
      (∀ key, .notifiedStart key false ∉ h ∧ .notifiedEnd key false ∉ h) ∧
      starts h = ["key"] ∧ ends h = [] ∧ ¬ Paired h := by
  obtain ⟨h, s, hr, hret, hh⟩ := connection.exists_of_exec connection.free
    (fun h s ↦ s.command = .returned ∧
      h = [.received (.connect [("stream_key", "key"), ("channel_id", "1")]),
        .notifiedStart "key" true, .replied ["200\n"], .executed ["200\n"],
        .wrote (FtlCodec.encode "200\n"), .received .dot, .allocated none,
        .replied [allocationFailed]]) rfl
    (connectSteps true ++ [Action.read (FtlCodec.encode ".\r\n\r\n"), .decode, .sendCommand .dot,
      .recvCommand .dot zeroDraw, .allocate none, .reply [allocationFailed] .failed])
    (by decide +kernel)
  have hs : starts h = ["key"] := by rw [hh]; rfl
  have he : ends h = [] := by rw [hh]; rfl
  refine ⟨h, s, hr, hret, fun key ↦ by simp [hh], hs, he, fun hp ↦ ?_⟩
  have hcount := hp.1 "key"
  rw [hs, he] at hcount
  exact absurd hcount (by decide)

end ITG.Ingest
