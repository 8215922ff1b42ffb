import ITG.System.Media

/-!
# The stream of the configured port

`New` makes a stream before there are any requests, and a page that asks for a websocket names no
port, so it is led to this stream.  Nobody is told its port but whoever configured the server.
Streamers come and go around it: they can neither be given its port nor delete it
(`initial_undisturbed`), so what is in the map of the server is known at any time
(`registry_exact`).

For the viewers it means that whoever names no port stays with the initial stream (`unnamed_kept`)
and is shown what is sent to the configured port (`configured_follows`), which is nothing that a
streamer sends to the port that it was told.
-/

universe u v w x

namespace ITG.Webrtc

open ITG.Lib

namespace Server

variable {K : Type u} [DecidableEq K] {RTPPort : ℤ} {h : List (Event K)} {s : Server K}
  {a : Action K} {k : Caller K} {i : ℕ}

/-! ## What is in the map -/

/-- A call that is about to return a stream goes on until it returns it. -/
theorem starting_goes_on (g : s.guard a) (hk : (s.call k).Starting i) :
    ((s.effect a g).call k).Starting i ∨ a = .start k i := by
  rcases call_step (k := k) g with he | hm
  · exact .inl (he ▸ hk)
  · generalize s.call k = p, (s.effect a g).call k = q at hk hm ⊢
    rcases hk with rfl | rfl
    · cases hm
      exact .inl (.inr rfl)
    · cases hm
      exact .inr rfl

/-- An entry is new, or was there before. -/
theorem of_streams_step (g : s.guard a) {p : ℤ} (hs : (s.effect a g).streams p = some i) :
    s.streams p = some i ∨ ∃ k, a = .insert k i := by
  cases a with
  | insert k j =>
      by_cases hp : p = s.port j
      · subst hp
        obtain rfl : j = i := by simpa [effect] using hs
        exact .inr ⟨k, rfl⟩
      · exact .inl (by simpa [effect, hp] using hs)
  | delete k port j =>
      by_cases hp : p = port
      · subst hp
        simp [effect] at hs
      · exact .inl (by simpa [effect, hp] using hs)
  | _ => exact .inl hs

/-- What is in the map has been returned by a call of `createStream`, or is about to be. -/
theorem creator_of_streams {ok : Server K → Action K → Prop} (hr : (server K RTPPort).Reach ok h s)
    {p : ℤ} (hs : s.streams p = some i) :
    (∃ k, .created k i ∈ h) ∨ ∃ k, (s.call k).Starting i := by
  revert hs
  refine hr.invariant (I := fun h s ↦ s.streams p = some i →
    (∃ k, .created k i ∈ h) ∨ ∃ k, (s.call k).Starting i) ?_ ?_
  · rintro _ rfl
    exact nofun
  · intro h s a g ih _ hs
    rcases of_streams_step g.2 hs with hs | ⟨k, rfl⟩
    · rcases ih hs with ⟨k, hc⟩ | ⟨k, hk⟩
      · exact .inl ⟨k, List.mem_append_left _ hc⟩
      · rcases starting_goes_on g.2 hk with hk | rfl
        · exact .inr ⟨k, hk⟩
        · exact .inl ⟨k, List.mem_append_right _ List.mem_cons_self⟩
    · exact .inr ⟨k, .inl (Function.update_self ..)⟩

/-! ## The call of `New` -/

/-- What the history says about the call of `New`. -/
structure Opening (RTPPort : ℤ) (h : List (Event K)) (s : Server K) : Prop where
  listen : ∀ port, s.call .new = .listen port → port = RTPPort
  creating : ∀ i, (s.call .new).creating = some i → RTPPort = 0 ∨ s.port i = RTPPort
  initial : ∀ i, .created .new i ∈ h →
    s.call .new = .returned (.stream i) ∧ (RTPPort = 0 ∨ s.port i = RTPPort)
  /-- Requests are served when `New` has succeeded. -/
  served : ∀ k, s.call (.handler k) ≠ .idle ∨ (∃ i, .created (.handler k) i ∈ h) →
    (s.call .new).succeeded = true

theorem Opening.new : Opening RTPPort [] (.new RTPPort : Server K) where
  listen port hk := by
    cases hk
    rfl
  creating i hk := by cases hk
  initial i hm := absurd hm List.not_mem_nil
  served k hk := by
    rcases hk with hk | ⟨i, hm⟩
    · exact absurd rfl hk
    · exact absurd hm List.not_mem_nil

/-- `New` returns once. -/
theorem returned_new_step (g : s.guard a) {r : Response} (hk : s.call .new = .returned r) :
    (s.effect a g).call .new = .returned r := by
  rcases call_step (k := .new) g with he | hm
  · rw [he, hk]
  · rw [hk] at hm
    cases hm

theorem Opening.creating_step (ho : Opening RTPPort h s) (hi : Inv s) (g : s.guard a)
    (hk : ((s.effect a g).call .new).creating = some i) :
    RTPPort = 0 ∨ (s.effect a g).port i = RTPPort := by
  rcases Server.creating_step g hk with hs | ⟨rfl, port, p, rfl⟩
  · rw [port_effect g (hi.creating .new i hs)]
    exact ho.creating i hs
  · obtain rfl := ho.listen port g.1
    have hport : (s.effect (.listen .new port p) g).port s.opened = p := Function.update_self ..
    exact g.2.1.imp_right hport.trans

theorem Opening.initial_step (ho : Opening RTPPort h s) (hi : Inv s)
    (hlt : ∀ k i, .created k i ∈ h → i < s.opened) (g : s.guard a)
    (hm : .created .new i ∈ h ++ emit a) :
    (s.effect a g).call .new = .returned (.stream i) ∧
      (RTPPort = 0 ∨ (s.effect a g).port i = RTPPort) := by
  rcases List.mem_append.1 hm with hm | hm
  · obtain ⟨hk, hp⟩ := ho.initial i hm
    rw [port_effect g (hlt _ i hm)]
    exact ⟨returned_new_step g hk, hp⟩
  · obtain rfl := created_mem_emit hm
    have hk : (s.call .new).creating = some i := by
      rw [show s.call .new = .start i from g]
      rfl
    rw [port_effect g (hi.creating .new i hk)]
    exact ⟨by simp [effect], ho.creating i hk⟩

theorem Opening.served_step (ho : Opening RTPPort h s) (g : s.guard a) {k : K}
    (hk : (s.effect a g).call (.handler k) ≠ .idle ∨
      ∃ i, .created (.handler k) i ∈ h ++ emit a) :
    ((s.effect a g).call .new).succeeded = true := by
  suffices hup : (s.call .new).succeeded = true by
    obtain ⟨i, hi⟩ : ∃ i, s.call .new = .returned (.stream i) := by
      unfold CallAt.succeeded at hup
      split at hup
      · exact ⟨_, by assumption⟩
      · cases hup
    rw [returned_new_step g hi]
    rfl
  rcases hk with hk | ⟨i, hm⟩
  · by_cases hidle : s.call (.handler k) = .idle
    · rcases call_step (k := .handler k) g with he | hm
      · exact absurd (he.trans hidle) hk
      · generalize s.call (.handler k) = p, (s.effect a g).call (.handler k) = q at hidle hm
        cases hm with
        | request => exact g.2
        | _ => cases hidle
    · exact ho.served k (.inl hidle)
  · rcases List.mem_append.1 hm with hm | hm
    · exact ho.served k (.inr ⟨i, hm⟩)
    · obtain rfl := created_mem_emit hm
      refine ho.served k (.inl ?_)
      rw [show s.call (.handler k) = .start i from g]
      exact nofun

/-- The run lemma. -/
theorem opening_of_reach (hr : (server K RTPPort).Reach ReadsSucceed h s) :
    Opening RTPPort h s := by
  refine hr.invariant_of (I := fun h s ↦ Opening RTPPort h s)
    (fun _ _ hr ↦ And.intro (server_inv_of_reach hr) (creators_of_reach hr)) ?_ ?_
  · rintro _ rfl
    exact .new
  · rintro h s a g ⟨hi, hc⟩ - ho -
    exact ⟨fun port hk ↦ ho.listen port (listen_new_step g.2 hk), fun _ ↦ ho.creating_step hi g.2,
      fun _ ↦ ho.initial_step hi hc.lt g.2, fun _ ↦ ho.served_step g.2⟩

end Server

end ITG.Webrtc

namespace ITG.System

open ITG.Lib ITG.Webrtc ITG.Frontend

/-- `New` has made the stream. -/
def Initial {C : Type u} (h : List (Event C)) (i : ℕ) : Prop := .server (.created .new i) ∈ h

/-! ## Streamers around the initial stream -/

section World

variable {C : Type u} [DecidableEq C] {RTPPort : ℤ} {h : List (Event C)} {w : World C}
  {a : Action C} {c : C} {i j : ℕ}

omit [DecidableEq C] in
/-- What is seen of the server is what it does by itself. -/
theorem World.eq_server_of_mem_emit {e : Server.Event C} (he : .server e ∈ w.emit a) :
    ∃ b, a = .server b ∧ e ∈ Server.emit b := by
  cases a with
  | server b =>
      obtain ⟨e', hm, heq⟩ := List.mem_map.1 he
      cases heq
      exact ⟨b, rfl, hm⟩
  | conn c b =>
      obtain ⟨e', -, heq⟩ := List.mem_map.1 he
      cases heq
  | allocated c r | freed c port r => cases List.mem_singleton.1 he
  | post c | delete c port => cases he

theorem World.port_effect (g : w.guard a) (hi : i < w.server.opened) :
    (w.effect a g).server.port i = w.server.port i := by
  cases a with
  | server b => exact Server.port_effect g.1 hi
  | _ => rfl

omit [DecidableEq C] in
/-- A creation is seen when the call returns. -/
theorem created_of_append {k : Caller C} (hm : .server (.created k i) ∈ h ++ w.emit a) :
    .server (.created k i) ∈ h ∨ a = .server (.start k i) := by
  refine (List.mem_append.1 hm).imp_right fun hm ↦ ?_
  obtain ⟨b, rfl, hb⟩ := World.eq_server_of_mem_emit hm
  rw [Server.created_mem_emit hb]

theorem Known.not_created_of_initial (hk : Known h w) (hi : Initial h i) : ¬ Created h c i := by
  intro hc
  cases hk.creators.unique _ _ i (mem_filterMap_ofServer.2 hi) (mem_filterMap_ofServer.2 hc)

theorem opening_of_reach (hr : (world C RTPPort).Reach (world C RTPPort).free h w) :
    w.server.Opening RTPPort (h.filterMap Event.ofServer) :=
  Server.opening_of_reach (server_of_reach hr)

/-- `New` opens the configured port. -/
theorem port_initial (hr : (world C RTPPort).Reach (world C RTPPort).free h w)
    (hi : Initial h i) : RTPPort = 0 ∨ w.server.port i = RTPPort :=
  ((opening_of_reach hr).initial i (mem_filterMap_ofServer.2 hi)).2

/-- The initial stream stays in the map. -/
theorem initial_kept (hr : (world C RTPPort).Reach (world C RTPPort).free h w)
    (hi : Initial h i) : w.server.streams (w.server.port i) = some i := by
  revert hi
  refine hr.invariant_of
    (I := fun h w ↦ Initial h i → w.server.streams (w.server.port i) = some i)
    (fun _ _ hr ↦ And.intro (known_of_reach hr) (owned_of_reach hr)) ?_ ?_
  · rintro _ rfl hi
    exact absurd hi List.not_mem_nil
  · rintro h w a g ⟨hk, ho⟩ - ih - hm
    rcases created_of_append hm with hi | rfl
    · have hlt := hk.creators.lt _ i (mem_filterMap_ofServer.2 hi)
      cases a with
      | server b =>
          rcases ho.entry_step hk g.2.1 hlt (ih hi) with hs | ⟨c, port, rfl, hc⟩
          · exact hs
          · exact absurd hc (hk.not_created_of_initial hi)
      | _ => exact ih hi
    · exact ho.starting .new i (.inr g.2.1)

/-- A streamer has never been given the port of the initial stream. -/
theorem port_ne_initial (hr : (world C RTPPort).Reach (world C RTPPort).free h w)
    (hi : Initial h i) (hc : Created h c j) : w.server.port j ≠ w.server.port i := by
  revert hi hc
  refine hr.invariant_of
    (I := fun h w ↦ Initial h i → Created h c j → w.server.port j ≠ w.server.port i)
    (J := fun h w ↦ (world C RTPPort).Reach (world C RTPPort).free h w) (fun _ _ hr ↦ hr) ?_ ?_
  · rintro _ rfl hi
    exact absurd hi List.not_mem_nil
  · intro h w a g hr _ ih _ hmi hmc
    have hk := known_of_reach hr
    have hcreated := created_of_append hmc
    rcases created_of_append hmi with hi | rfl
    · have hlt := hk.creators.lt _ i (mem_filterMap_ofServer.2 hi)
      rcases hcreated with hc | rfl
      · have hport := ih hi hc
        rwa [← World.port_effect g.2 hlt, ← World.port_effect g.2 (hk.lt_of_created hc)] at hport
      · -- the stream is in the map, and so is the initial one
        intro hp
        have hj : w.server.streams (w.server.port j) = some j :=
          (owned_of_reach hr).starting _ j (.inr g.2.1)
        have hp : w.server.port j = w.server.port i := hp
        rw [hp] at hj
        obtain rfl : i = j := Option.some.inj ((initial_kept hr hi).symm.trans hj)
        have hnew := (hk.creators.creating (.handler c) i (by
          rw [show w.server.call (.handler c) = .start i from g.2.1]
          rfl)).2 .new
        exact hnew (mem_filterMap_ofServer.2 hi)
    · -- there are no requests before `New` has returned
      rcases hcreated with hc | hc
      · have hup := (opening_of_reach hr).served c (.inr ⟨j, mem_filterMap_ofServer.2 hc⟩)
        rw [show w.server.call .new = .start i from g.2.1] at hup
        cases hup
      · cases hc

/-- **Streamers do not disturb the initial stream.**  In every run of any number of connections with
the server: the stream that `New` has made stays in the map under its port, which is the configured
one unless that is `0`; it is the stream of no connection; and no connection is told its port. -/
theorem initial_undisturbed (hr : (world C RTPPort).Reach (world C RTPPort).free h w)
    (hi : Initial h i) :
    w.server.streams (w.server.port i) = some i ∧ (RTPPort = 0 ∨ w.server.port i = RTPPort) ∧
      ∀ c, ¬ Created h c i ∧ ∀ p : UInt16,
        .conn c (.replied [Ingest.announcement p]) ∈ h → (p.toNat : ℤ) ≠ w.server.port i := by
  have hk := known_of_reach hr
  refine ⟨initial_kept hr hi, port_initial hr hi,
    fun c ↦ ⟨hk.not_created_of_initial hi, fun p hm ↦ ?_⟩⟩
  obtain ⟨j, hj, hport⟩ :=
    (owned_of_reach hr).port c p ((hk.conn c).announced p (mem_filterMap_ofConn.2 hm))
  rw [← hport]
  exact port_ne_initial hr hi hj

/-- A streamer has been there and has left. -/
theorem initial_undisturbed_visit :
    ∃ h w, (world ℕ 65535).Reach (world ℕ 65535).free h w ∧
      .conn 0 (.freed 5004) ∈ h ∧ w.server.streams 65535 = some 0 := by
  obtain ⟨h, w, hr, hi, he⟩ := (world ℕ 65535).exists_of_exec (world ℕ 65535).free
    (fun h _ ↦ .server (.created .new 0) ∈ h ∧ .conn 0 (.freed 5004) ∈ h) rfl
    ((create .new 65535 65535 0).map .server ++ ask 0 5004 1 ++ Platform.closing)
    (by decide +kernel)
  obtain ⟨hs, hport, -⟩ := initial_undisturbed hr hi
  rw [hport.resolve_left (by decide)] at hs
  exact ⟨h, w, hr, he, hs⟩

/-- **What is in the map.**  In every state of every run, the map of the server has, under the port
of its socket, the initial stream, every stream that was created for a connection whose request to
delete it has not been handled, every stream that a call is about to return, and no other. -/
theorem registry_exact (hr : (world C RTPPort).Reach (world C RTPPort).free h w) (port : ℤ)
    (i : ℕ) : w.server.streams port = some i ↔
      w.server.port i = port ∧ (Initial h i ∨ (∃ c, Created h c i ∧ ¬ Handled h c) ∨
        ∃ k, (w.server.call k).Starting i) := by
  have hk := known_of_reach hr
  have ho := owned_of_reach hr
  constructor
  · intro hs
    refine ⟨(hk.inv.places.listed port i hs).2.1, ?_⟩
    rcases Server.creator_of_streams (server_of_reach hr) hs with ⟨k | c, hc⟩ | hstart
    · exact .inl (mem_filterMap_ofServer.1 hc)
    · have hc : Created h c i := mem_filterMap_ofServer.1 hc
      refine .inr (.inl ⟨c, hc, ?_⟩)
      rintro ⟨q, found, hm⟩
      -- who has removed it closes its hub
      obtain ⟨j, rfl, hj⟩ := ho.removed c q found hm
      obtain rfl := ho.once c i j hc hj
      refine hk.inv.not_off hs ?_
      exact (hubDone_of_removed (server_of_reach hr) (mem_filterMap_ofServer.2 hm)).imp_right
        fun hn ↦ ⟨_, hn⟩
    · exact .inr (.inr hstart)
  · rintro ⟨rfl, hi | ⟨c, hc, hn⟩ | ⟨k, hstart⟩⟩
    · exact initial_kept hr hi
    · exact ho.kept c i hc hn
    · exact ho.starting k i hstart

/-- A streamer is there. -/
theorem registry_exact_ask :
    ∃ h w, (world ℕ 65535).Reach (world ℕ 65535).free h w ∧ w.server.streams 65535 = some 0 ∧
      w.server.streams 5004 = some 1 := by
  obtain ⟨h, w, hr, hi, hc, hcmd, hp₀, hp₁⟩ :=
    (world ℕ 65535).exists_of_exec (world ℕ 65535).free
    (fun h w ↦ .server (.created .new 0) ∈ h ∧ .server (.created (.handler 0) 1) ∈ h ∧
      (w.conn 0).command = .recv ∧ w.server.port 0 = 65535 ∧ w.server.port 1 = 5004) rfl
    ((create .new 65535 65535 0).map .server ++ ask 0 5004 1) (by decide +kernel)
  have hn := (owned_of_reach hr).not_handled_of_command (c := 0) (by rw [hcmd]; exact nofun)
    (by rw [hcmd]; exact nofun)
  exact ⟨h, w, hr, (registry_exact hr _ _).2 ⟨hp₀, .inl hi⟩,
    (registry_exact hr _ _).2 ⟨hp₁, .inr (.inl ⟨0, hc, hn⟩)⟩⟩

/-- `New` makes one stream. -/
theorem initial_unique (hr : (world C RTPPort).Reach (world C RTPPort).free h w)
    (hi : Initial h i) (hj : Initial h j) : i = j := by
  have ho := opening_of_reach hr
  have hcall := (ho.initial i (mem_filterMap_ofServer.2 hi)).1
  cases hcall.symm.trans (ho.initial j (mem_filterMap_ofServer.2 hj)).1
  rfl

/-- A connection whose command task has returned has no stream in the map. -/
theorem streams_ne_of_returned (hr : (world C RTPPort).Reach (world C RTPPort).free h w)
    (hc : Created h c i) (hret : (w.conn c).command = .returned) (port : ℤ) :
    w.server.streams port ≠ some i := by
  intro hs
  have hk := known_of_reach hr
  have ho := owned_of_reach hr
  rcases ho.granted c i hc with hcall | hport
  · -- the connection waits for the answer
    have hserves := ho.serves (.handler c)
    rw [hcall] at hserves
    cases hret.symm.trans hserves
  · obtain ⟨p, hp⟩ := Option.ne_none_iff_exists'.1 hport
    obtain ⟨j, hj, hd⟩ :=
      hubDone_of_freed hr (mem_filterMap_ofConn.1 ((hk.conn c).released hret p hp))
    obtain rfl := ho.once c i j hc hj
    exact hk.inv.not_off hs (.inl hd)

/-- **Nothing is left of streamers that have gone.**  In every run: when the command task of every
connection that a stream was created for has returned, and no call is about to return another one,
the map of the server is as `New` has left it. -/
theorem all_gone (hr : (world C RTPPort).Reach (world C RTPPort).free h w) (hi : Initial h i)
    (hret : ∀ c j, Created h c j → (w.conn c).command = .returned)
    (hstart : ∀ k j, ¬ (w.server.call k).Starting j) :
    w.server.streams = fun port ↦ if port = w.server.port i then some i else none := by
  funext port
  split
  · subst port
    exact initial_kept hr hi
  · rename_i hport
    apply Option.eq_none_iff_forall_ne_some.2
    intro j hs
    rcases Server.creator_of_streams (server_of_reach hr) hs with ⟨k | c, hc⟩ | ⟨k, hk⟩
    · obtain rfl := initial_unique hr hi (mem_filterMap_ofServer.1 hc)
      exact hport ((known_of_reach hr).inv.places.listed port i hs).2.1.symm
    · have hc : Created h c j := mem_filterMap_ofServer.1 hc
      exact streams_ne_of_returned hr hc (hret c j hc) port hs
    · exact hstart k j hk

/-- A streamer has been there and has left. -/
theorem all_gone_visit :
    ∃ h w, (world Unit 65535).Reach (world Unit 65535).free h w ∧ Created h () 1 ∧
      w.server.streams = fun port ↦ if port = 65535 then some 0 else none := by
  obtain ⟨h, w, hr, hi, hc, hret, hcall, hnew, hport⟩ :=
    (world Unit 65535).exists_of_exec (world Unit 65535).free
    (fun h w ↦ .server (.created .new 0) ∈ h ∧ .server (.created (.handler ()) 1) ∈ h ∧
      (w.conn ()).command = .returned ∧ w.server.call (.handler ()) = .idle ∧
      w.server.call .new = .returned (.stream 0) ∧ w.server.port 0 = 65535) rfl
    ((create .new 65535 65535 0).map .server ++ ask () 5004 1 ++
      [.conn () (.write (Ingest.announcement 5004) []), .conn () .writeEnd, .conn () .eof,
        .conn () .recvCommandNone, .delete () 5004] ++
      (remove (.handler ()) 5004 1).map .server ++ [.freed () 5004 .noContent])
    (by decide +kernel)
  refine ⟨h, w, hr, hc, ?_⟩
  rw [all_gone hr hi (fun c _ _ ↦ by cases c; exact hret), hport]
  intro k j hk
  have hcreating := hk.creating
  cases k with
  | new =>
      rw [hnew] at hcreating
      cases hcreating
  | handler c =>
      cases c
      rw [hcall] at hcreating
      cases hcreating

end World

namespace Platform

/-! ## Viewers that name no port -/

section Runs

variable {C : Type u} [DecidableEq C] {V : Type v} [DecidableEq V] {T : Type w} [DecidableEq T]
  {K D : Type x} {E : Ends V K D} {RTPPort : ℤ} {h : List (Event C V K D)} {p : Platform C V T}
  {i : ℕ}

/-- The hub of the initial stream is never closed. -/
theorem done_initial (hr : (platform C T E RTPPort).Reach (platform C T E RTPPort).free h p)
    (hi : Initial (toWorld h) i) :
    (p.stream i).hub.listed = true ∧ (p.stream i).hub.done = false := by
  have hl := linked_of_reach hr
  have hoff := (parts_of_reach hr).server.not_off (initial_kept (world_of_reach hr) hi)
  constructor
  · exact Bool.eq_true_of_not_eq_false fun hf ↦ hoff ((hl.listed i).1 hf)
  · exact Bool.eq_false_iff.2 fun hd ↦ hoff (.inl ((hl.done i).1 hd))

/-- **Whoever names no port is with the initial stream for good.**  In every run of the platform in
which `New` has made a stream: a viewer who asks without a port, or with what is no number, is led
to this stream, unless the configured port is `0`; and a viewer of it is in `Clients` once it was
inserted, its `Send` channel is open, and so is its websocket unless its own `WriteLoop` has given
up, or else its own `ReadLoop` has ended or its own peer connection has reported a change. -/
theorem unnamed_kept (hr : (platform C T E RTPPort).Reach (platform C T E RTPPort).free h p)
    (hi : Initial (toWorld h) i) (v : V) :
    (∀ q (g : p.guard RTPPort (.websocket v q)), RTPPort ≠ 0 → atoi q = none →
        (p.effect E RTPPort (.websocket v q) g).attached v = some i) ∧
      (((.registered v ∈ Signalling.toHub (toStream i h) → v ∈ (p.stream i).hub.Clients) ∧
          (p.stream i).hub.sendClosed v = false ∧
          ((p.stream i).hub.connClosed v = true → (p.stream i).hub.writer v = .returned)) ∨
        (p.stream i).hub.Troubled v) := by
  constructor
  · intro q g h0 hq
    have hport := (port_initial (world_of_reach hr) hi).resolve_left h0
    have hasked : websocketPort RTPPort q = RTPPort := by
      rw [websocketPort, hq, Option.getD_none, ite_self]
    rw [attached_websocket g, Server.websocketHandler, hasked, ← hport]
    exact initial_kept (world_of_reach hr) hi
  · by_cases ht : (p.stream i).hub.Troubled v
    · exact .inr ht
    · exact .inl (kept_of_reach (Signalling.hub_of_reach_free (stream_of_reach hr i))
        (done_initial hr hi).2 ht)

/-- A viewer who names no port, while a streamer is there. -/
theorem unnamed_kept_ask :
    ∃ h p, ∃ g : Platform.guard 65535 p (.websocket 7 ""),
      (platform ℕ ℕ Signalling.ends 65535).Reach (platform ℕ ℕ Signalling.ends 65535).free h p ∧
        (p.effect Signalling.ends 65535 (.websocket 7 "") g).attached 7 = some 0 := by
  obtain ⟨h, p, hr, g, hi⟩ := (platform ℕ ℕ Signalling.ends 65535).exists_of_exec
    (platform ℕ ℕ Signalling.ends 65535).free
    (fun h p ↦ p.guard 65535 (.websocket 7 "") ∧ .server (.created .new 0) ∈ toWorld h) rfl
    opening (by decide +kernel)
  exact ⟨h, p, g, hr, (unnamed_kept hr hi 7).1 "" g (by decide) (by decide +kernel)⟩

end Runs

end Platform

namespace Media

/-! ## What is sent to the configured port -/

section Runs

variable {C : Type u} [DecidableEq C] {V : Type v} [DecidableEq V] {T : Type w} [DecidableEq T]
  {K D : Type x} {unmarshal : Bytes → Option UInt8} {E : Ends V K D} {RTPPort : ℤ}
  {h k : List (Event C V K D)} {m t : Media C V T} {i : ℕ}

/-- The initial stream is where the datagrams go that are sent to the configured port. -/
theorem bound_of_initial
    (hr : (media C T unmarshal E RTPPort).Reach (media C T unmarshal E RTPPort).free h m)
    (hi : Initial (toWorld h) i) (h0 : RTPPort ≠ 0) (q : ℤ) :
    m.platform.world.server.bound q = some i ↔ q = RTPPort := by
  have hw := world_of_reach hr
  have hinv := (known_of_reach hw).inv
  have hport := (port_initial hw hi).resolve_left h0
  constructor
  · intro hq
    rw [← (hinv.bound_eq_some_iff.1 hq).2.2, hport]
  · rintro rfl
    exact hinv.bound_of_streams (hport ▸ initial_kept hw hi)

/-- **Whoever names no port is shown what is sent to the configured port.**  In every run: from the
success of `New` on, and whatever streamers do, the socket of the initial stream is given every
datagram that arrives at the configured port, and no other; and what has been written to the
stream's tracks is what the relay makes of the datagrams that the socket has been given, but for
those that still wait in its queue and the one that its reader has in its hands. -/
theorem configured_follows
    (hr : (media C T unmarshal E RTPPort).Reach (media C T unmarshal E RTPPort).free h m)
    (hi : Initial (toWorld h) i) (h0 : RTPPort ≠ 0)
    (hrun : (media C T unmarshal E RTPPort).Run (media C T unmarshal E RTPPort).free m k t) :
    arrivals i (h ++ k) = arrivals i h ++ sentTo RTPPort k ∧
      ∃ read, arrivals i (h ++ k) = read ++ t.queue i ∧
        writes i (h ++ k) ++ t.inHand i = relay unmarshal (.make 0) read := by
  refine ⟨?_, relayed_of_reach (hr.trans hrun) i⟩
  induction hrun with
  | refl => simp [sentTo]
  | @step k t a hrun _ g ih =>
      have hi' : Initial (toWorld (h ++ k)) i := by
        rw [toWorld_append]
        exact List.mem_append_left _ hi
      have hstep : arrivals i ((media C T unmarshal E RTPPort).emit t a) =
          sentTo RTPPort ((media C T unmarshal E RTPPort).emit t a) :=
        arrivals_of_bound (bound_of_initial (hr.trans hrun) hi' h0)
      rw [← List.append_assoc, arrivals_append, ih, sentTo_append, hstep, List.append_assoc]

/-- Two packets arrive, one for a streamer's viewers and one for those that named no port. -/
theorem configured_follows_packet :
    ∃ h m k t, (media ℕ ℕ plainPayloadType Signalling.ends 65535).Reach
        (media ℕ ℕ plainPayloadType Signalling.ends 65535).free h m ∧
      (media ℕ ℕ plainPayloadType Signalling.ends 65535).Run
        (media ℕ ℕ plainPayloadType Signalling.ends 65535).free m k t ∧
      sentTo 5004 k = [videoPacket 20] ∧
      arrivals 0 (h ++ k) = arrivals 0 h ++ [videoPacket 10] := by
  obtain ⟨h, m, k, t, hr, ⟨hi, hnone, hnone'⟩, hrun, hsent, hsent'⟩ :=
    (media ℕ ℕ plainPayloadType Signalling.ends 65535).exists_of_exec_exec
      (media ℕ ℕ plainPayloadType Signalling.ends 65535).free
      (fun h _ ↦ .server (.created .new 0) ∈ toWorld h ∧ sentTo 5004 h = [] ∧
        sentTo 65535 h = [])
      (fun h _ ↦ sentTo 5004 h = [videoPacket 20] ∧ sentTo 65535 h = [videoPacket 10]) rfl
      opening [.datagram 5004 (videoPacket 20), .datagram 65535 (videoPacket 10)]
      (by decide +kernel)
  rw [sentTo_append, hnone, List.nil_append] at hsent
  rw [sentTo_append, hnone', List.nil_append] at hsent'
  exact ⟨h, m, k, t, hr, hrun, hsent,
    (configured_follows hr hi (by decide) hrun).1.trans (congrArg _ hsent')⟩

end Runs

end Media

end ITG.System
