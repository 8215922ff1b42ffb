import ITG.Ingest.Ending
import ITG.System.Viewers

/-!
# Streamers can leave

A streamer that closes its socket takes its stream along, but that needs more than its connection.
The request of `free_port` has to be handled by a server whose lock other requests may hold, and a
connection that has asked for a port has to get its answer first.  None of this can be in the way
for good: whoever holds the lock can release it, and every call can return (`exists_step`).

So what decides is the connection alone.  `streamer_can_leave` carries `connection_can_end` from one
connection over to the platform: from every reachable state the streamer can leave, and its stream
with it, unless its connection is doomed; and then its stream stays open for ever.
-/

universe u v w x

/-! ## Every call can return -/

namespace ITG.Webrtc

/-- How many steps a call has to go, at most, when it is not waiting. -/
def CallAt.left : CallAt → ℕ
  | .deleteLock _ => 7
  | .lookup _ | .listen _ => 6
  | .delete _ _ | .tracks _ => 5
  | .deleteUnlock _ | .createLock _ => 4
  | .connClose _ | .insert _ => 3
  | .hubClose _ | .createUnlock _ => 2
  | .doneClose _ | .start _ | .listenerClose _ => 1
  | .idle | .returned _ => 0

theorem CallAt.left_le (p : CallAt) : p.left ≤ 7 := by
  cases p <;> exact Nat.le_of_ble_eq_true rfl

theorem streamHandler_ne_idle (r : Request) : streamHandler r ≠ .idle := by
  rcases streamHandler_cases r with ⟨_, h⟩ | ⟨_, h⟩ | h | h <;> rw [h] <;> exact nofun

namespace Server

variable {K : Type u} {s t : Server K} {a : Action K} {j k : Caller K}

/-- Every move of a call brings it nearer to its return. -/
theorem Moves.left_lt {p q : CallAt} (hm : s.Moves a k p q) (hp : p.inProgress = true) :
    q.left < p.left ∧ q ≠ .idle := by
  cases hm with
  | request | reply => cases hp
  | _ => exact ⟨Nat.le_of_ble_eq_true rfl, nofun⟩

variable [DecidableEq K]

/-- The caller of a step moves. -/
theorem moves_of_caller (g : s.guard a) (ha : a.caller = some k) :
    s.Moves a k (s.call k) ((s.effect a g).call k) := by
  cases a with
  | readError i | readerClose i => cases ha
  | deleteUnlock k' found =>
      cases ha
      simp only [effect, call_move, Function.update_self]
      rw [show s.call k = _ from g]
      cases found <;> constructor
  | hubClose k' i =>
      cases ha
      simp only [effect, call_move, Function.update_self]
      rw [show s.call k = _ from g]
      split
      · rename_i hd
        exact .hubClosed hd
      · rename_i hd
        exact .hubClose (Bool.eq_false_iff.2 hd)
  | request | listen | createLock | deleteLock | lookup | lookupNone =>
      cases ha
      simp only [effect, call_move, Function.update_self]
      rw [g.1]
      constructor
  | listenError | tracks | tracksError | listenerClose | insert | createUnlock | start | delete
    | connClose | doneClose | reply =>
      cases ha
      simp only [effect, call_move, Function.update_self]
      rw [show s.call _ = _ from g]
      constructor

/-- How many steps there are to go until a call returns, with those of the holder of the lock. -/
def left (s : Server K) (k : Caller K) : ℕ :=
  10 * (s.call k).left + s.mu.elim 0 fun j ↦ (s.call j).left

/-- A step of the holder of the lock, or of the call itself when the lock is free. -/
theorem Locked.left_lt (hl : Locked s) (g : s.guard a) (ha : a.caller = some j)
    (hj : (s.call j).inProgress = true) (hmu : s.mu = some j ∨ s.mu = none ∧ j = k) :
    (s.effect a g).left k < s.left k := by
  have hlt := ((moves_of_caller g ha).left_lt hj).1
  have hother : ∀ i, i ≠ j → (s.effect a g).call i = s.call i := fun i hi ↦
    call_of_caller_ne g (by rw [ha]; exact fun he ↦ hi (Option.some.inj he).symm)
  rcases hmu with hmu | ⟨hmu, rfl⟩
  · have hholder : ((s.effect a g).mu.elim 0 fun i ↦ ((s.effect a g).call i).left) ≤
        ((s.effect a g).call j).left := by
      cases hm : (s.effect a g).mu with
      | none => exact Nat.zero_le _
      | some i =>
          -- nobody takes the lock while it is held
          have hi : i = j := by
            by_contra hi
            have hlocked := (hl.step g i).2 hm
            rw [hother i hi, hl i, hmu] at hlocked
            exact hi (Option.some.inj hlocked).symm
          rw [Option.elim_some, hi]
    have hmine : ((s.effect a g).call k).left ≤ (s.call k).left := by
      by_cases hk : k = j
      · rw [hk]
        exact hlt.le
      · rw [hother k hk]
    simp only [left, hmu, Option.elim_some]
    omega
  · have hholder : ((s.effect a g).mu.elim 0 fun i ↦ ((s.effect a g).call i).left) ≤ 7 := by
      cases (s.effect a g).mu with
      | none => exact Nat.zero_le 7
      | some i => exact CallAt.left_le _
    simp only [left]
    omega

omit [DecidableEq K] in
/-- The holder of the lock can go on, and so can any call when the lock is free. -/
theorem Locked.exists_guard (hl : Locked s) (hk : (s.call k).inProgress = true) :
    ∃ a j, s.guard a ∧ s.Alone a ∧ a.caller = some j ∧ (s.call j).inProgress = true ∧
      (s.mu = some j ∨ s.mu = none ∧ j = k) := by
  cases hmu : s.mu with
  | some j =>
      have hlocked := (hl j).2 hmu
      have hj : (s.call j).inProgress = true := by
        cases hc : s.call j <;> rw [hc] at hlocked <;> first | rfl | cases hlocked
      suffices h : ∃ a, s.guard a ∧ s.Alone a ∧ a.caller = some j by
        obtain ⟨a, g, ha, hcaller⟩ := h
        exact ⟨a, j, g, ha, hcaller, hj, .inl rfl⟩
      cases hc : s.call j with
      | insert i => exact ⟨.insert j i, hc, trivial, rfl⟩
      | createUnlock i => exact ⟨.createUnlock j i, hc, trivial, rfl⟩
      | delete port i => exact ⟨.delete j port i, hc, trivial, rfl⟩
      | deleteUnlock found => exact ⟨.deleteUnlock j found, hc, trivial, rfl⟩
      | lookup port =>
          cases hs : s.streams port with
          | none => exact ⟨.lookupNone j port, ⟨hc, hs⟩, trivial, rfl⟩
          | some i => exact ⟨.lookup j port i, ⟨hc, hs⟩, trivial, rfl⟩
      | _ =>
          rw [hc] at hlocked
          cases hlocked
  | none =>
      have hfree : (s.call k).locked ≠ true := fun hlocked ↦ by
        cases hmu.symm.trans ((hl k).1 hlocked)
      suffices h : ∃ a, s.guard a ∧ s.Alone a ∧ a.caller = some k by
        obtain ⟨a, g, ha, hcaller⟩ := h
        exact ⟨a, k, g, ha, hcaller, hk, .inr ⟨rfl, rfl⟩⟩
      cases hc : s.call k with
      | listen port => exact ⟨.listenError k port, hc, trivial, rfl⟩
      | tracks i => exact ⟨.tracks k i, hc, trivial, rfl⟩
      | listenerClose i => exact ⟨.listenerClose k i, hc, trivial, rfl⟩
      | createLock i => exact ⟨.createLock k i, ⟨hc, hmu⟩, trivial, rfl⟩
      | start i => exact ⟨.start k i, hc, trivial, rfl⟩
      | deleteLock port => exact ⟨.deleteLock k port, ⟨hc, hmu⟩, trivial, rfl⟩
      | connClose i => exact ⟨.connClose k i, hc, trivial, rfl⟩
      | hubClose i => exact ⟨.hubClose k i, hc, trivial, rfl⟩
      | doneClose i => exact ⟨.doneClose k i, hc, trivial, rfl⟩
      | insert i | createUnlock i | lookup port | delete port i | deleteUnlock found =>
          rw [hc] at hfree
          exact absurd rfl hfree
      | idle | returned r =>
          rw [hc] at hk
          cases hk

end Server

end ITG.Webrtc

/-! ## Every request is answered -/

namespace ITG.System

open ITG.Lib ITG.Webrtc

section World

variable {C : Type u} [DecidableEq C] {RTPPort : ℤ} {h : List (Event C)} {w : World C} {c : C}

/-- The server can come to an answer without anybody else having to do something. -/
theorem canReach_returned (hr : (world C RTPPort).Reach (world C RTPPort).free h w)
    (hc : w.server.call (.handler c) ≠ .idle) :
    (world C RTPPort).CanReach (world C RTPPort).free w fun t ↦
      t.conn = w.conn ∧ ∃ r, t.server.call (.handler c) = .returned r := by
  refine hr.canReach (P := fun t ↦ t.conn = w.conn ∧ t.server.call (.handler c) ≠ .idle)
    (fun t ↦ t.server.left (.handler c)) (fun h t ht hP hn ↦ ?_) ⟨rfl, hc⟩
  have hi := (known_of_reach ht).inv
  have hprogress : (t.server.call (.handler c)).inProgress = true := by
    cases hcall : t.server.call (.handler c) with
    | idle => exact absurd hcall hP.2
    | returned r => exact absurd ⟨hP.1, r, hcall⟩ hn
    | _ => rfl
  obtain ⟨a, j, g, ha, hcaller, hj, hmu⟩ := hi.locked.exists_guard hprogress
  refine .step (.server a) trivial ⟨hi.panicked, g, ha⟩ (.now ⟨⟨hP.1, ?_⟩, ?_⟩)
  · change (t.server.effect a g).call (.handler c) ≠ .idle
    by_cases hjc : a.caller = some (.handler c)
    · exact ((Server.moves_of_caller g hjc).left_lt hprogress).2
    · rw [Server.call_of_caller_ne g hjc]
      exact hP.2
  · exact hi.locked.left_lt g hcaller hj hmu

/-- A request that has not been made can be made, and then answered. -/
theorem canReach_answer (hr : (world C RTPPort).Reach (world C RTPPort).free h w) {a : Action C}
    (ha : w.server.call (.handler c) = .idle → ∃ g : (world C RTPPort).guard w a,
      ((world C RTPPort).effect w a g).conn = w.conn ∧
        ((world C RTPPort).effect w a g).server.call (.handler c) ≠ .idle) :
    (world C RTPPort).CanReach (world C RTPPort).free w fun t ↦
      t.conn = w.conn ∧ ∃ r, t.server.call (.handler c) = .returned r := by
  by_cases hidle : w.server.call (.handler c) = .idle
  · obtain ⟨g, hconn, hne⟩ := ha hidle
    refine .step a trivial g ((canReach_returned (hr.step a trivial g) hne).mono ?_)
    rintro t ⟨ht, hret⟩
    exact ⟨ht.trans hconn, hret⟩
  · exact canReach_returned hr hidle

/-- `New` has succeeded, and the server serves requests. -/
def World.Up (w : World C) : Prop := (w.server.call .new).succeeded = true

theorem World.Up.step (hup : w.Up) {a : Action C} (g : w.guard a) : (w.effect a g).Up := by
  have hhandler : ∀ d p, ((w.server.move (.handler d) p).call .new).succeeded = true := fun d p ↦ by
    have hne : (.new : Caller C) ≠ .handler d := fun he ↦ by cases he
    rwa [Server.call_move, Function.update_of_ne hne]
  cases a with
  | conn d a => exact hup
  | post d | delete d port | allocated d r | freed d port r => exact hhandler d _
  | server a =>
      obtain ⟨i, hi⟩ : ∃ i, w.server.call .new = .returned (.stream i) := by
        rw [World.Up] at hup
        cases hc : w.server.call .new with
        | returned r =>
            cases r with
            | stream i => exact ⟨i, rfl⟩
            | _ =>
                rw [hc] at hup
                cases hup
        | _ =>
            rw [hc] at hup
            cases hup
      change ((w.server.effect a g.1).call .new).succeeded = true
      rw [Server.returned_stays g.1 g.2 hi]
      rfl

/-- A connection that is not doomed can come nearer to its end, with the server's help where it
needs it. -/
theorem canReach_toward (hr : (world C RTPPort).Reach (world C RTPPort).free h w) (hup : w.Up)
    (hn : ¬ (w.conn c).Doomed) (he : ¬ (w.conn c).Ended) :
    (world C RTPPort).CanReach (world C RTPPort).free w fun t ↦
      (w.conn c).Toward (t.conn c) := by
  have hpanicked := (known_of_reach hr).inv.panicked
  by_cases hall : (w.conn c).command = .allocate
  · obtain ⟨k, t, hrun, hconn, r, hret⟩ := canReach_answer (a := .post c) hr fun hidle ↦
      ⟨⟨hpanicked, hall, hidle, hup⟩, rfl, by
        change Function.update _ _ _ _ ≠ _
        rw [Function.update_self]
        exact streamHandler_ne_idle _⟩
    have g : (t.conn c).guard (.allocate (allocatePort t.server r)) := by
      rw [hconn]
      exact hall
    refine .of_run hrun (.step (.allocated c r) trivial
      ⟨(known_of_reach (hr.trans hrun)).inv.panicked, g, hret⟩ (.now ?_))
    rw [← hconn]
    change (t.conn c).Toward (Function.update t.conn c _ c)
    rw [Function.update_self]
    exact Ingest.Connection.toward_allocate g
  by_cases hfree : ∃ port, (w.conn c).command = .freePort port
  · obtain ⟨port, hfree⟩ := hfree
    obtain ⟨k, t, hrun, hconn, r, hret⟩ := canReach_answer (a := .delete c port) hr fun hidle ↦
      ⟨⟨hpanicked, hfree, hidle, hup⟩, rfl, by
        change Function.update _ _ _ _ ≠ _
        rw [Function.update_self]
        exact streamHandler_ne_idle _⟩
    have g : (t.conn c).guard (.freePort port) := by
      rw [hconn]
      exact hfree
    refine .of_run hrun (.step (.freed c port r) trivial
      ⟨(known_of_reach (hr.trans hrun)).inv.panicked, g, hret⟩ (.now ?_))
    rw [← hconn]
    change (t.conn c).Toward (Function.update t.conn c _ c)
    rw [Function.update_self]
    exact Ingest.Connection.toward_freePort g
  · have hconn := connection_of_reach hr c
    obtain ⟨d, hd⟩ := Ingest.inDialogue_of_reach hconn
    obtain ⟨a, g, htoward⟩ := (Ingest.lockstep_of_reach hconn).exists_step hd hn he
    have ha : a.Alone := by
      cases a with
      | allocate r => exact absurd g hall
      | freePort port => exact absurd ⟨port, g⟩ hfree
      | _ => trivial
    refine .step (.conn c a) trivial ⟨hpanicked, g, ha⟩ (.now ?_)
    change (w.conn c).Toward (Function.update w.conn c _ c)
    rwa [Function.update_self]

/-- A connection that is not doomed can end, while the server serves requests. -/
theorem canReach_ended (hr : (world C RTPPort).Reach (world C RTPPort).free h w) (hup : w.Up)
    (hn : ¬ (w.conn c).Doomed) :
    (world C RTPPort).CanReach (world C RTPPort).free w fun t ↦ (t.conn c).Ended := by
  refine hr.canReach (P := fun t ↦ t.Up ∧ ¬ (t.conn c).Doomed) (fun t ↦ (t.conn c).left)
    (fun h t ht hP he ↦ ?_) ⟨hup, hn⟩
  refine ((canReach_toward ht hP.1 hP.2 he).preserves (I := World.Up) (fun _ _ g hu _ ↦ hu.step g.2)
    hP.1).mono ?_
  rintro t' ⟨hup', hn', hlt⟩
  exact ⟨⟨hup', hn'⟩, hlt⟩

/-- A step of the world is a step of the connection, or leaves it alone. -/
theorem World.conn_step {a : Action C} (g : w.guard a) :
    (w.effect a g).conn c = w.conn c ∨
      ∃ b, ∃ gb : (w.conn c).guard b, (w.effect a g).conn c = (w.conn c).effect b gb := by
  have hconn : ∀ (d : C) (b : Ingest.Action) (gb : (w.conn d).guard b),
      (w.stepConn d b gb).conn c = w.conn c ∨ ∃ b', ∃ gb' : (w.conn c).guard b',
        (w.stepConn d b gb).conn c = (w.conn c).effect b' gb' := fun d b gb ↦ by
    by_cases hd : d = c
    · subst hd
      exact .inr ⟨b, gb, Function.update_self ..⟩
    · exact .inl (Function.update_of_ne (Ne.symm hd) ..)
  cases a with
  | conn d b => exact hconn d b g.1
  | allocated d r => exact hconn d (.allocate (allocatePort w.server r)) g.1
  | freed d port r => exact hconn d (.freePort port) g.1
  | server a | post d | delete d port => exact .inl rfl

/-- A connection that has ended has had its stream deleted. -/
theorem hubDone_of_ended (hr : (world C RTPPort).Reach (world C RTPPort).free h w)
    (he : (w.conn c).Ended) {i : ℕ} (hc : Created h c i) : w.server.hubDone i = true := by
  have ho := owned_of_reach hr
  have hp := Ingest.portInv_of_reach (connection_of_reach hr c)
  have hport : (w.conn c).state.rtpPort ≠ none := by
    rcases ho.granted c i hc with hcall | hport
    · have hserves := ho.serves (.handler c)
      rw [hcall] at hserves
      cases he.2.symm.trans hserves
    · exact hport
  obtain ⟨port, hport⟩ := Option.ne_none_iff_exists'.1 hport
  obtain ⟨j, hj, hd⟩ := hubDone_of_freed hr (mem_filterMap_ofConn.1 (hp.released he.2 port hport))
  obtain rfl := ho.once c i j hc hj
  exact hd

end World

/-! ## The platform -/

namespace Platform

variable {C : Type u} [DecidableEq C] {V : Type v} [DecidableEq V] {T : Type w} [DecidableEq T]
  {K D : Type x} {E : Ends V K D} {RTPPort : ℤ} {h : List (Event C V K D)} {p : Platform C V T}

/-- No goroutine of the server ever panics. -/
theorem panicked_of_reach {ok : Platform C V T → Action C V T → Prop}
    (hr : (platform C T E RTPPort).Reach ok h p) : p.panicked = false := by
  refine hr.invariant_of (I := fun _ p ↦ p.panicked = false) (fun _ _ hr ↦ parts_of_reach hr) ?_ ?_
  · rintro _ rfl
    rfl
  · rintro h p a ⟨hpanicked, g⟩ - hparts hp -
    cases a with
    | world a => exact hparts.server.panicked
    | websocket v port =>
        change (Option.elim (p.world.server.websocketHandler RTPPort port) p _).panicked = false
        cases p.world.server.websocketHandler RTPPort port <;> exact hp
    | stream i a =>
        have hself : (p.effect E RTPPort (.stream i a) g).stream i =
            (p.stream i).effect E a g.2.2 := Function.update_self ..
        have hstream := hparts.panicked i
        have hhub := (hparts.hub i).panicked
        change ((p.effect E RTPPort (.stream i a) g).stream i).panicked = false at hstream
        change ((p.effect E RTPPort (.stream i a) g).stream i).hub.panicked = false at hhub
        rw [hself] at hstream hhub
        exact Bool.or_eq_false_iff.2 ⟨hstream, hhub⟩

/-- What the world can do by itself, it can do on the platform. -/
theorem run_of_world (hr : (platform C T E RTPPort).Reach (platform C T E RTPPort).free h p)
    {k : List (System.Event C)} {w' : World C}
    (hrun : (System.world C RTPPort).Run (System.world C RTPPort).free p.world k w') :
    ∃ k' t, (platform C T E RTPPort).Run (platform C T E RTPPort).free p k' t ∧ t.world = w' := by
  induction hrun with
  | refl => exact ⟨[], p, .refl, rfl⟩
  | step a _ _ g ih =>
      obtain ⟨k', t, hrun', rfl⟩ := ih
      have hp := panicked_of_reach (hr.trans hrun')
      exact ⟨_, _, hrun'.step (Action.world a) trivial ⟨hp, g⟩, rfl⟩

/-- The run lemma for connections that are doomed. -/
theorem doomed_of_run {ok : Platform C V T → Action C V T → Prop} {k : List (Event C V K D)}
    {t : Platform C V T} {c : C} (hrun : (platform C T E RTPPort).Run ok p k t)
    (hl : (p.world.conn c).Lockstep) (hd : (p.world.conn c).Doomed) : (t.world.conn c).Doomed := by
  have hboth := hrun.preserves
    (I := fun t ↦ (t.world.conn c).Lockstep ∧ (t.world.conn c).Doomed) ?_ ⟨hl, hd⟩
  · exact hboth.2
  · rintro t a ⟨-, g⟩ ⟨hl, hd⟩ -
    cases a with
    | stream i a => exact ⟨hl, hd⟩
    | websocket v port =>
        change ((t.effect E RTPPort (.websocket v port) g).world.conn c).Lockstep ∧
          ((t.effect E RTPPort (.websocket v port) g).world.conn c).Doomed
        rw [world_effect_websocket v port g]
        exact ⟨hl, hd⟩
    | world a =>
        change ((t.world.effect a g.2).conn c).Lockstep ∧ ((t.world.effect a g.2).conn c).Doomed
        rcases World.conn_step (c := c) g.2 with he | ⟨b, gb, he⟩ <;> rw [he]
        · exact ⟨hl, hd⟩
        · exact ⟨hl.step gb, hd.step hl gb⟩

/-- **A streamer can leave unless its connection is doomed.**  From every reachable state of the
platform in which the server serves requests: a connection that is not doomed can come to its end,
whoever holds the server's lock, and with it the stream that was created for it, if there was one;
of one that is doomed the stream stays open in every run, and viewers are led to it. -/
theorem streamer_can_leave
    (hr : (platform C T E RTPPort).Reach (platform C T E RTPPort).free h p) (c : C)
    (hup : p.world.Up) :
    (¬ (p.world.conn c).Doomed → ∃ k t,
        (platform C T E RTPPort).Run (platform C T E RTPPort).free p k t ∧
          (t.world.conn c).Ended ∧ ∀ i, Created (toWorld (h ++ k)) c i →
            (t.stream i).hub.done = true ∧ (t.stream i).hub.listed = false) ∧
      ((p.world.conn c).Doomed → ∀ k t,
        (platform C T E RTPPort).Run (platform C T E RTPPort).free p k t →
          ¬ (t.world.conn c).Ended ∧ ∀ i, Created (toWorld (h ++ k)) c i →
            (t.stream i).hub.done = false ∧ (t.stream i).hub.listed = true) := by
  have hw := world_of_reach hr
  constructor
  · intro hn
    obtain ⟨k', w', hrun', he⟩ := canReach_ended hw hup hn
    obtain ⟨k, t, hrun, rfl⟩ := run_of_world hr hrun'
    have ht := hr.trans hrun
    have hl := linked_of_reach ht
    refine ⟨k, t, hrun, he, fun i hc ↦ ?_⟩
    have hd := hubDone_of_ended (world_of_reach ht) he hc
    exact ⟨(hl.done i).2 hd, (hl.listed i).2 (.inl hd)⟩
  · intro hd k t hrun
    have ht := hr.trans hrun
    have hl := linked_of_reach ht
    have hdoomed := doomed_of_run hrun (Ingest.lockstep_of_reach (connection_of_reach hw c)) hd
    refine ⟨hdoomed.not_ended, fun i hc ↦ ?_⟩
    have hn := (owned_of_reach (world_of_reach ht)).not_handled_of_command (c := c)
      (fun _ ↦ hdoomed.command_ne id) (hdoomed.command_ne id)
    have hoff := not_off_of_created ht hc hn
    constructor
    · exact Bool.eq_false_iff.2 fun hdone ↦ hoff (.inl ((hl.done i).1 hdone))
    · exact Bool.eq_true_of_not_eq_false fun hlisted ↦ hoff ((hl.listed i).1 hlisted)

/-- The streamer says what its codec is, and that its video is `yes`. -/
def saysYes : List (System.Action ℕ) :=
  [.conn 0 (.write (Ingest.announcement 5004) []), .conn 0 .writeEnd,
    .conn 0 (.read (Ingest.FtlCodec.encode "VideoCodec: H264\r\n\r\nVideo: yes\r\n\r\n"))]

/-- A streamer that has been given a port can leave; once it has sent these two attributes, its
stream stays. -/
theorem streamer_can_leave_video :
    (∃ h p, (platform ℕ ℕ Signalling.ends 65535).Reach
        (platform ℕ ℕ Signalling.ends 65535).free h p ∧ Created (toWorld h) 0 1 ∧
      ∃ k t, (platform ℕ ℕ Signalling.ends 65535).Run (platform ℕ ℕ Signalling.ends 65535).free
        p k t ∧ (t.stream 1).hub.done = true) ∧
    ∃ h p, (platform ℕ ℕ Signalling.ends 65535).Reach
        (platform ℕ ℕ Signalling.ends 65535).free h p ∧
      ∀ k t, (platform ℕ ℕ Signalling.ends 65535).Run (platform ℕ ℕ Signalling.ends 65535).free
        p k t → (t.stream 1).hub.done = false := by
  constructor
  · obtain ⟨h, p, hr, hc, hup, hf⟩ := (platform ℕ ℕ Signalling.ends 65535).exists_of_exec
      (platform ℕ ℕ Signalling.ends 65535).free
      (fun h p ↦ .server (.created (.handler 0) 1) ∈ toWorld h ∧
        (p.world.server.call .new).succeeded = true ∧
        (p.world.conn 0).frame = .writing [Ingest.announcement 5004]) rfl
      opening (by decide +kernel)
    have hn := Ingest.Connection.not_doomed_of_writing hf
      ((Ingest.Answers.announced 5004).not_silent rfl)
    obtain ⟨k, t, hrun, -, hclosed⟩ := (streamer_can_leave hr 0 hup).1 hn
    have hc' : Created (toWorld (h ++ k)) 0 1 := by
      rw [toWorld, List.filterMap_append]
      exact List.mem_append_left _ hc
    exact ⟨h, p, hr, hc, k, t, hrun, (hclosed 1 hc').1⟩
  · obtain ⟨h, p, hr, hc, hup, hf, hcmd, hq, hp, hb⟩ :=
      (platform ℕ ℕ Signalling.ends 65535).exists_of_exec
      (platform ℕ ℕ Signalling.ends 65535).free
      (fun h p ↦ .server (.created (.handler 0) 1) ∈ toWorld h ∧
        (p.world.server.call .new).succeeded = true ∧ (p.world.conn 0).frame = .next ∧
        (p.world.conn 0).command = .recv ∧ (p.world.conn 0).commands.buf = [] ∧
        (p.world.conn 0).replies.buf = [] ∧ (p.world.conn 0).buffer =
          Ingest.FtlCodec.encode "VideoCodec: H264\r\n\r\nVideo: yes\r\n\r\n") rfl
      (opening ++ saysYes.map .world) (by decide +kernel)
    have hd := Ingest.doomed_of_codec_video hf hcmd hq hp hb
    refine ⟨h, p, hr, fun k t hrun ↦ ?_⟩
    have hc' : Created (toWorld (h ++ k)) 0 1 := by
      rw [toWorld, List.filterMap_append]
      exact List.mem_append_left _ hc
    exact (((streamer_can_leave hr 0 hup).2 hd k t hrun).2 1 hc').1

end Platform

end ITG.System
