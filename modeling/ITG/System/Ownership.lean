import ITG.System.World

/-!
# Who owns a port

The port that a connection announces to its streamer is the key of the stream that the server
created for it, and stays so until the server handles the connection's own request to delete it.
`Owned` is the invariant.  It ties the program point of each request handler to that of its
connection, so that a delete under way comes from a connection that still has the port; and no
other stream can be registered under that port, because its socket is still open.

The request of `free_port` counts as *handled* from the step in which `deleteStream`, holding the
lock, removes what it has found under the port.
-/

universe u

namespace ITG.Webrtc

open ITG.Lib

/-- The command task at the other end of a request, while the handler is at this program point. -/
def CallAt.Serves (cmd : Ingest.CommandAt) : CallAt → Prop
  | .idle => True
  | .listen _ | .tracks _ | .listenerClose _ | .createLock _ | .insert _ | .createUnlock _
    | .start _ | .returned (.stream _) | .returned .internalServerError => cmd = .allocate
  | .deleteLock port | .lookup port | .delete port _ =>
      ∃ p : UInt16, cmd = .freePort p ∧ port = p.toNat
  | .deleteUnlock _ | .connClose _ | .hubClose _ | .doneClose _ | .returned .noContent =>
      ∃ p, cmd = .freePort p
  | .returned .badRequest | .returned .methodNotAllowed => False

/-- The stream has been looked up, and removed if it was there. -/
def CallAt.removed : CallAt → Bool
  | .deleteUnlock _ | .connClose _ | .hubClose _ | .doneClose _ | .returned .noContent => true
  | _ => false

/-- The stream is in the map, and the call of `createStream` is about to return it. -/
def CallAt.Starting (i : ℕ) (p : CallAt) : Prop := p = .createUnlock i ∨ p = .start i

theorem CallAt.Starting.creating {i : ℕ} {p : CallAt} (h : p.Starting i) :
    p.creating = some i := by
  rcases h with rfl | rfl <;> rfl

namespace Server

variable {C : Type u} [DecidableEq C] {s : Server C} {a : Server.Action C} {k : Caller C} {i : ℕ}

/-! ## What the server's steps do to a call -/

/-- A call goes on with the request that it serves. -/
theorem serves_step (g : s.guard a) (ha : s.Alone a) {cmd : Ingest.CommandAt}
    (h : (s.call k).Serves cmd) : ((s.effect a g).call k).Serves cmd := by
  rcases call_step (k := k) g with hk | hm
  · rwa [hk]
  · generalize s.call k = p, (s.effect a g).call k = q at h hm ⊢
    cases hm with
    | request | reply => exact ha.elim
    | lookupNone | delete =>
        obtain ⟨p, hp, -⟩ := h
        exact ⟨p, hp⟩
    | _ => exact h

/-- A removal stays done until the call is answered. -/
theorem removed_step (g : s.guard a) (ha : s.Alone a) (h : (s.call k).removed = true) :
    ((s.effect a g).call k).removed = true := by
  rcases call_step (k := k) g with hk | hm
  · rwa [hk]
  · generalize s.call k = p, (s.effect a g).call k = q at h hm ⊢
    cases hm with
    | request | reply => exact ha.elim
    | lookupNone | delete | unlockSome | unlockNone | connClose | hubClose | hubClosed
      | doneClose => rfl
    | _ => cases h

theorem removed_of_mem_emit {port : ℤ} {found : Option ℕ} (g : s.guard a)
    (he : .removed k port found ∈ emit a) :
    ((s.effect a g).call k).removed = true ∧
      (a = .lookupNone k port ∧ found = none ∨ ∃ i, a = .delete k port i ∧ found = some i) := by
  cases a with
  | lookupNone k' port' =>
      cases List.mem_singleton.1 he
      exact ⟨by simp [effect, CallAt.removed], .inl ⟨rfl, rfl⟩⟩
  | delete k' port' j =>
      cases List.mem_singleton.1 he
      exact ⟨by simp [effect, CallAt.removed], .inr ⟨j, rfl, rfl⟩⟩
  | start | connClose | hubClose => cases List.mem_singleton.1 he
  | _ => cases he

/-- The server does nothing more for a call that has returned. -/
theorem returned_stays (g : s.guard a) (ha : s.Alone a) {r : Response}
    (h : s.call k = .returned r) : (s.effect a g).call k = .returned r := by
  rcases call_step (k := k) g with hk | hm
  · exact hk.trans h
  · rw [h] at hm
    generalize (s.effect a g).call k = q at hm ⊢
    cases hm with
    | reply => exact ha.elim

theorem starting_step (g : s.guard a) (h : ((s.effect a g).call k).Starting i) :
    (s.call k).Starting i ∨ a = .insert k i := by
  rcases of_call_step (·.Starting i) g h with hk | ⟨p, q, hp, hm, hq⟩
  · exact .inl hk
  · have hc := hq.creating
    rw [hp]
    cases hm with
    | insert =>
        cases hc
        exact .inr rfl
    | createUnlock =>
        cases hc
        exact .inl (.inl rfl)
    | tracks | tracksError | createLock | listen => rcases hq with hq | hq <;> cases hq
    | request => simp at hc
    | _ => cases hc

/-! ## The map -/

/-- The port of a socket is fixed. -/
theorem port_effect (g : s.guard a) (hi : i < s.opened) : (s.effect a g).port i = s.port i := by
  cases a with
  | listen k port p => exact Function.update_of_ne (Nat.ne_of_lt hi) ..
  | _ => rfl

/-- An entry of the map is not overwritten: it stays until it is deleted. -/
theorem Inv.streams_step (hi : s.Inv) (g : s.guard a) {p : ℤ} (h : s.streams p = some i) :
    (s.effect a g).streams p = some i ∨ ∃ k, a = .delete k p i := by
  cases a with
  | insert k j =>
      left
      have hnone := (hi.places.insert g).2
      have hp : p ≠ s.port j := by
        rintro rfl
        rw [hnone] at h
        cases h
      simpa [effect, hp] using h
  | delete k port j =>
      by_cases hp : p = port
      · subst hp
        have hj := hi.found k p j g
        rw [h] at hj
        cases hj
        exact .inr ⟨k, rfl⟩
      · left
        simpa [effect, hp] using h
  | _ => exact .inl h

end Server

end ITG.Webrtc

namespace ITG.System

open ITG.Lib ITG.Webrtc

/-- The server created the stream for the connection. -/
def Created {C : Type u} (h : List (Event C)) (c : C) (i : ℕ) : Prop :=
  .server (.created (.handler c) i) ∈ h

/-- The server has handled the connection's request to delete its stream. -/
def Handled {C : Type u} (h : List (Event C)) (c : C) : Prop :=
  ∃ port found, .server (.removed (.handler c) port found) ∈ h

/-! ## What is known of the parties -/

section Known

variable {C : Type u} [DecidableEq C] {RTPPort : ℤ} {h : List (Event C)} {w : World C}

/-- What holds of each party by itself. -/
structure Known (h : List (Event C)) (w : World C) : Prop where
  inv : w.server.Inv
  creators : w.server.Creators (h.filterMap Event.ofServer)
  conn : ∀ c, (w.conn c).PortInv (h.filterMap (Event.ofConn c))

theorem known_of_reach (hr : (world C RTPPort).Reach (world C RTPPort).free h w) : Known h w where
  inv := server_inv_of_reach (server_of_reach hr)
  creators := creators_of_reach (server_of_reach hr)
  conn c := Ingest.portInv_of_reach (connection_of_reach hr c)

omit [DecidableEq C] in
theorem mem_filterMap_ofServer {e : Server.Event C} :
    e ∈ h.filterMap Event.ofServer ↔ .server e ∈ h := by
  refine List.mem_filterMap.trans ⟨?_, fun he ↦ ⟨_, he, rfl⟩⟩
  rintro ⟨_ | e', he, heq⟩ <;> cases heq
  exact he

theorem mem_filterMap_ofConn {c : C} {e : Ingest.Event} :
    e ∈ h.filterMap (Event.ofConn c) ↔ .conn c e ∈ h := by
  refine List.mem_filterMap.trans ⟨?_, fun he ↦ ⟨_, he, if_pos rfl⟩⟩
  rintro ⟨⟨d, e'⟩ | e', he, heq⟩
  · simp only [Event.ofConn] at heq
    split at heq
    · rename_i hd
      cases heq
      exact hd ▸ he
    · cases heq
  · cases heq

theorem Known.lt_of_created (hk : Known h w) {c : C} {i : ℕ} (hc : Created h c i) :
    i < w.server.opened := hk.creators.lt _ i (mem_filterMap_ofServer.2 hc)

/-- A stream is created for one connection. -/
theorem Known.created_unique (hk : Known h w) {c d : C} {i : ℕ} (hc : Created h c i)
    (hd : Created h d i) : c = d := by
  have he := hk.creators.unique _ _ i (mem_filterMap_ofServer.2 hc) (mem_filterMap_ofServer.2 hd)
  cases he
  rfl

theorem Known.rtpPort_of_freePort (hk : Known h w) {c : C} {p : UInt16}
    (hc : (w.conn c).command = .freePort p) : (w.conn c).state.rtpPort = some p := by
  have hp := (hk.conn c).point
  rwa [hc] at hp

theorem Known.rtpPort_of_allocate (hk : Known h w) {c : C}
    (hc : (w.conn c).command = .allocate) : (w.conn c).state.rtpPort = none := by
  have hp := (hk.conn c).point
  rwa [hc] at hp

end Known

/-! ## Ownership -/

namespace World

/-- The command task that waits for a caller; `New` is no request, and treated as one for a
port. -/
def client {C : Type u} (w : World C) : Caller C → Ingest.CommandAt
  | .new => .allocate
  | .handler c => (w.conn c).command

/-- The port of a connection is the key of its stream, until the server handles the connection's
request to delete it. -/
structure Owned {C : Type u} (h : List (Event C)) (w : World C) : Prop where
  serves : ∀ k, (w.server.call k).Serves (w.client k)
  range : ∀ i < w.server.opened, 1 ≤ w.server.port i ∧ w.server.port i ≤ 65535
  /-- A connection has the port of the stream that was created for it. -/
  port : ∀ c p, (w.conn c).state.rtpPort = some p → ∃ i, Created h c i ∧ w.server.port i = p.toNat
  /-- What is created for a connection reaches it. -/
  granted : ∀ c i, Created h c i →
    w.server.call (.handler c) = .returned (.stream i) ∨ (w.conn c).state.rtpPort ≠ none
  answered : ∀ c i, w.server.call (.handler c) = .returned (.stream i) → Created h c i
  once : ∀ c i j, Created h c i → Created h c j → i = j
  starting : ∀ k i, (w.server.call k).Starting i → w.server.streams (w.server.port i) = some i
  /-- The entry stays until the connection's own request. -/
  kept : ∀ c i, Created h c i → ¬ Handled h c → w.server.streams (w.server.port i) = some i
  removed : ∀ c port found, .server (.removed (.handler c) port found) ∈ h →
    ∃ i, found = some i ∧ Created h c i
  handled : ∀ c, Handled h c →
    (w.server.call (.handler c)).removed = true ∨ (w.conn c).command = .returned

variable {C : Type u} [DecidableEq C] {RTPPort : ℤ} {h : List (Event C)} {w : World C}

theorem Owned.new : Owned [] (⟨fun _ ↦ .new, .new RTPPort⟩ : World C) where
  serves k := by cases k <;> trivial
  range i hi := absurd hi (Nat.not_lt_zero i)
  port := nofun
  granted := nofun
  answered := nofun
  once := nofun
  starting k i hs := by cases k <;> rcases hs with hs | hs <;> cases hs
  kept := nofun
  removed := nofun
  handled := by
    rintro c ⟨port, found, hm⟩
    cases hm

/-- A call that is about to remove the stream under a port is that of a connection that has this
port, and finds the stream that was created for it. -/
theorem Owned.of_deleting (ho : Owned h w) (hk : Known h w) {k : Caller C} {port : ℤ}
    (hcall : w.server.call k = .lookup port ∨ ∃ j, w.server.call k = .delete port j) :
    ∃ c i, k = .handler c ∧ ¬ Handled h c ∧ Created h c i ∧ w.server.port i = port ∧
      w.server.streams port = some i := by
  have hserves : ∃ p : UInt16, w.client k = .freePort p ∧ port = p.toNat := by
    have hs := ho.serves k
    rcases hcall with hc | ⟨j, hc⟩ <;> rw [hc] at hs <;> exact hs
  obtain ⟨p, hcmd, rfl⟩ := hserves
  cases k with
  | new => cases hcmd
  | handler c =>
      have hcmd : (w.conn c).command = .freePort p := hcmd
      have hun : ¬ Handled h c := fun hh ↦ by
        rcases ho.handled c hh with hr | hr
        · rcases hcall with hc | ⟨j, hc⟩ <;> rw [hc] at hr <;> cases hr
        · rw [hcmd] at hr
          cases hr
      obtain ⟨i, hcreated, hport⟩ := ho.port c p (hk.rtpPort_of_freePort hcmd)
      exact ⟨c, i, rfl, hun, hcreated, hport, hport ▸ ho.kept c i hcreated hun⟩

omit [DecidableEq C] in
/-- Ownership speaks of the server's events only. -/
theorem Owned.of_history (ho : Owned h w) {h' : List (Event C)}
    (hmem : ∀ e, .server e ∈ h' ↔ .server e ∈ h) : Owned h' w := by
  have hcreated : ∀ c i, Created h' c i ↔ Created h c i := fun c i ↦ hmem _
  have hhandled : ∀ c, Handled h' c ↔ Handled h c := fun c ↦
    exists_congr fun port ↦ exists_congr fun found ↦ hmem _
  constructor
  · exact ho.serves
  · exact ho.range
  · simpa only [hcreated] using ho.port
  · simpa only [hcreated] using ho.granted
  · simpa only [hcreated] using ho.answered
  · simpa only [hcreated] using ho.once
  · exact ho.starting
  · simpa only [hcreated, hhandled] using ho.kept
  · simpa only [hcreated, hmem] using ho.removed
  · simpa only [hhandled] using ho.handled

/-! ### Steps of the server -/

/-- The caller of a `createStream` that is under way has no stream yet. -/
theorem Owned.not_created (ho : Owned h w) (hk : Known h w) {c : C} {i j : ℕ}
    (hcall : w.server.call (.handler c) = .start i) : ¬ Created h c j := by
  intro hc
  have hcmd : (w.conn c).command = .allocate := by
    have hs := ho.serves (.handler c)
    rw [hcall] at hs
    exact hs
  rcases ho.granted c j hc with hr | hr
  · rw [hcall] at hr
    cases hr
  · exact hr (hk.rtpPort_of_allocate hcmd)

theorem Owned.range_step (ho : Owned h w) {a : Server.Action C} (g : w.server.guard a)
    (ha : w.server.Alone a) {i : ℕ} (hi : i < (w.server.effect a g).opened) :
    1 ≤ (w.server.effect a g).port i ∧ (w.server.effect a g).port i ≤ 65535 := by
  cases a with
  | listen k port p =>
      rcases Nat.lt_succ_iff_lt_or_eq.1 hi with hlt | rfl
      · rw [Server.port_effect g hlt]
        exact ho.range i hlt
      · have hp : (w.server.effect (.listen k port p) g).port w.server.opened = p :=
          Function.update_self ..
        rw [hp]
        exact ha
  | _ => exact ho.range i hi

/-- An entry leaves the map only through the request of its own connection. -/
theorem Owned.entry_step (ho : Owned h w) (hk : Known h w) {a : Server.Action C}
    (g : w.server.guard a) {i : ℕ} (hi : i < w.server.opened)
    (hs : w.server.streams (w.server.port i) = some i) :
    (w.server.effect a g).streams ((w.server.effect a g).port i) = some i ∨
      ∃ c port, a = .delete (.handler c) port i ∧ Created h c i := by
  rw [Server.port_effect g hi]
  rcases hk.inv.streams_step g hs with hs' | ⟨k, rfl⟩
  · exact .inl hs'
  · obtain ⟨c, j, rfl, -, hc, -, hj⟩ := ho.of_deleting hk (.inr ⟨i, g⟩)
    cases hs.symm.trans hj
    exact .inr ⟨c, _, rfl, hc⟩

/-- A request removes the stream of its own connection. -/
theorem Owned.removed_step (ho : Owned h w) (hk : Known h w) {a : Server.Action C}
    (g : w.server.guard a) {c : C} {port : ℤ} {found : Option ℕ}
    (hm : .removed (.handler c) port found ∈ Server.emit a) :
    ∃ i, found = some i ∧ Created h c i := by
  obtain ⟨-, ⟨rfl, rfl⟩ | ⟨i, rfl, rfl⟩⟩ := Server.removed_of_mem_emit g hm
  · obtain ⟨-, i, -, -, -, -, hs⟩ := ho.of_deleting hk (.inl g.1)
    cases g.2.symm.trans hs
  · obtain ⟨d, j, hd, -, hc, -, hs⟩ := ho.of_deleting hk (.inr ⟨i, g⟩)
    cases hd
    cases (hk.inv.found _ port i g).symm.trans hs
    exact ⟨i, rfl, hc⟩

theorem Owned.server_step (ho : Owned h w) (hk : Known h w) {a : Server.Action C}
    (g : w.server.guard a) (ha : w.server.Alone a) :
    Owned (h ++ (Server.emit a).map .server) (w.stepServer a g) := by
  set h' := h ++ (Server.emit a).map Event.server with hh'
  have hmem : ∀ e, .server e ∈ h' ↔ .server e ∈ h ∨ e ∈ Server.emit a := fun e ↦ by
    simp [hh']
  have hmono : ∀ {c i}, Created h c i → Created h' c i := fun hc ↦ (hmem _).2 (.inl hc)
  have hcreated : ∀ {c i}, Created h' c i → Created h c i ∨ a = .start (.handler c) i := fun hc ↦
    ((hmem _).1 hc).imp_right Server.created_mem_emit
  constructor
  case serves =>
    intro k
    have hclient : (w.stepServer a g).client k = w.client k := by cases k <;> rfl
    rw [hclient]
    exact Server.serves_step g ha (ho.serves k)
  case range =>
    intro i
    exact ho.range_step g ha
  case port =>
    intro c p hp
    obtain ⟨i, hc, hi⟩ := ho.port c p hp
    exact ⟨i, hmono hc, (Server.port_effect g (hk.lt_of_created hc)).trans hi⟩
  case granted =>
    intro c i hc
    rcases hcreated hc with hold | rfl
    · exact (ho.granted c i hold).imp_left (Server.returned_stays g ha)
    · exact .inl (Function.update_self ..)
  case answered =>
    intro c i hr
    rcases Server.returned_stream_step g hr with hr | rfl
    · exact hmono (ho.answered c i hr)
    · exact (hmem _).2 (.inr List.mem_cons_self)
  case once =>
    intro c i j hi hj
    rcases hcreated hi with hold | hi' <;> rcases hcreated hj with hold' | hj'
    · exact ho.once c i j hold hold'
    · subst hj'
      exact absurd hold (ho.not_created hk g)
    · subst hi'
      exact absurd hold' (ho.not_created hk g)
    · rw [hi'] at hj'
      cases hj'
      rfl
  case starting =>
    intro k i hs
    rcases Server.starting_step g hs with hs | rfl
    · have hi := hk.inv.creating k i hs.creating
      rcases ho.entry_step hk g hi (ho.starting k i hs) with hs' | ⟨c, -, -, hc⟩
      · exact hs'
      · exact absurd (mem_filterMap_ofServer.2 hc) ((hk.creators.creating k i hs.creating).2 _)
    · exact Function.update_self ..
  case kept =>
    intro c i hc hn
    rcases hcreated hc with hold | rfl
    · have hentry := ho.kept c i hold fun ⟨port, found, hm⟩ ↦
        hn ⟨port, found, (hmem _).2 (.inl hm)⟩
      rcases ho.entry_step hk g (hk.lt_of_created hold) hentry with hs | ⟨d, port, rfl, hd⟩
      · exact hs
      · obtain rfl := hk.created_unique hold hd
        exact absurd ⟨port, some i, (hmem _).2 (.inr List.mem_cons_self)⟩ hn
    · exact ho.starting _ i (.inr g)
  case removed =>
    intro c port found hm
    obtain ⟨i, hf, hc⟩ : ∃ i, found = some i ∧ Created h c i :=
      ((hmem _).1 hm).elim (ho.removed c port found) (ho.removed_step hk g)
    exact ⟨i, hf, hmono hc⟩
  case handled =>
    rintro c ⟨port, found, hm⟩
    rcases (hmem _).1 hm with hm | hm
    · exact (ho.handled c ⟨port, found, hm⟩).imp_left (Server.removed_step g ha)
    · exact .inl (Server.removed_of_mem_emit g hm).1

/-! ### Steps of the connections -/

/-- A request arrives. -/
theorem Owned.request (ho : Owned h w) {c : C} {r : Request}
    (g : w.server.guard (.request c r)) (hserves : (streamHandler r).Serves (w.conn c).command) :
    Owned h (w.stepServer (.request c r) g) := by
  constructor
  case serves =>
    intro k
    by_cases hk : k = .handler c
    · subst hk
      have hself : (w.stepServer (.request c r) g).server.call (.handler c) = streamHandler r :=
        Function.update_self ..
      rw [hself]
      exact hserves
    · have hs := ho.serves k
      cases k <;> simpa [stepServer, Server.effect, client, hk] using hs
  case range => exact ho.range
  case port => exact ho.port
  case granted =>
    intro d i hd
    refine (ho.granted d i hd).imp_left (Server.call_update (· = .returned (.stream i)) fun hc ↦ ?_)
    cases g.1.symm.trans hc
  case answered =>
    intro d i hd
    refine ho.answered d i (Server.of_call_update_of_not (· = .returned (.stream i)) hd ?_)
    rcases streamHandler_cases r with ⟨_, hr⟩ | ⟨_, hr⟩ | hr | hr <;> rw [hr] <;> simp
  case once => exact ho.once
  case starting =>
    intro k i hs
    refine ho.starting k i (Server.of_call_update_of_not (·.Starting i) hs fun hp ↦ ?_)
    cases (creating_streamHandler r).symm.trans hp.creating
  case kept => exact ho.kept
  case removed => exact ho.removed
  case handled =>
    intro d hd
    refine (ho.handled d hd).imp_left (Server.call_update (·.removed = true) fun hc ↦ ?_)
    rw [g.1] at hc
    cases hc

/-- A handler that is at work for a connection has it wait. -/
theorem serves_eq_idle {cmd : Ingest.CommandAt} {p : CallAt} (h : p.Serves cmd) :
    p = .idle ∨ cmd = .allocate ∨ ∃ port, cmd = .freePort port := by
  cases p with
  | idle => exact .inl rfl
  | listen | tracks | listenerClose | createLock | insert | createUnlock | start =>
      exact .inr (.inl h)
  | deleteLock | lookup | delete =>
      obtain ⟨port, hp, -⟩ := h
      exact .inr (.inr ⟨port, hp⟩)
  | deleteUnlock | connClose | hubClose | doneClose => exact .inr (.inr h)
  | returned r =>
      cases r with
      | stream | internalServerError => exact .inr (.inl h)
      | noContent => exact .inr (.inr h)
      | badRequest | methodNotAllowed => exact h.elim

/-- A connection moves by itself. -/
theorem Owned.conn_step (ho : Owned h w) {c : C} {a : Ingest.Action} (g : (w.conn c).guard a)
    (ha : a.Alone) : Owned h (w.stepConn c a g) := by
  set t := w.stepConn c a g with ht
  have hself : t.conn c = (w.conn c).effect a g := Function.update_self ..
  have hother : ∀ d, d ≠ c → t.conn d = w.conn d := fun d hd ↦ Function.update_of_ne hd ..
  have hport : ∀ d, (t.conn d).state.rtpPort = (w.conn d).state.rtpPort := fun d ↦ by
    by_cases hd : d = c
    · subst hd
      rw [hself, Ingest.Connection.rtpPort_effect g ha]
    · rw [hother d hd]
  constructor
  case serves =>
    intro k
    have hs := ho.serves k
    rcases serves_eq_idle hs with hidle | hwait
    · change (w.server.call k).Serves _
      rw [hidle]
      trivial
    · -- a command task that waits for its handler does not move
      have hstay : t.client k = w.client k := by
        cases k with
        | new => rfl
        | handler d =>
            change (t.conn d).command = (w.conn d).command
            by_cases hd : d = c
            · subst hd
              rw [hself]
              exact Ingest.Connection.command_effect g ha hwait
            · rw [hother d hd]
      rw [hstay]
      exact hs
  case range => exact ho.range
  case port =>
    intro d p hp
    exact ho.port d p (hport d ▸ hp)
  case granted =>
    intro d i hd
    rw [hport d]
    exact ho.granted d i hd
  case answered => exact ho.answered
  case once => exact ho.once
  case starting => exact ho.starting
  case kept => exact ho.kept
  case removed => exact ho.removed
  case handled =>
    intro d hd
    apply (ho.handled d hd).imp_right
    intro hr
    by_cases hdc : d = c
    · subst hdc
      rw [hself]
      exact Ingest.Connection.command_effect_returned g hr
    · rw [hother d hdc]
      exact hr

/-- An answer arrives: the connection goes on, and its handler is done. -/
theorem Owned.answer (ho : Owned h w) {c : C} {b : Ingest.Action} {r : Response}
    (gb : (w.conn c).guard b) (g : w.server.guard (.reply c r))
    (hport : ∀ p, ((w.conn c).effect b gb).state.rtpPort = some p →
      ∃ i, Created h c i ∧ w.server.port i = p.toNat)
    (hgranted : ∀ i, Created h c i → ((w.conn c).effect b gb).state.rtpPort ≠ none)
    (hhandled : Handled h c → ((w.conn c).effect b gb).command = .returned) :
    Owned h ((w.stepConn c b gb).stepServer (.reply c r) g) := by
  set t := (w.stepConn c b gb).stepServer (.reply c r) g with ht
  have hself : t.conn c = (w.conn c).effect b gb := Function.update_self ..
  have hother : ∀ d, d ≠ c → t.conn d = w.conn d := fun d hd ↦ Function.update_of_ne hd ..
  have hidle : t.server.call (.handler c) = .idle := Function.update_self ..
  have hcall : ∀ k, k ≠ .handler c → t.server.call k = w.server.call k := fun k hk ↦
    Function.update_of_ne hk ..
  have hne : ∀ d, d ≠ c → Caller.handler d ≠ .handler c := fun d hd he ↦ hd (by cases he; rfl)
  constructor
  case serves =>
    intro k
    by_cases hk : k = .handler c
    · subst hk
      rw [hidle]
      trivial
    · rw [hcall k hk]
      have hs := ho.serves k
      cases k with
      | new => exact hs
      | handler d =>
          have hd : d ≠ c := fun he ↦ hk (he ▸ rfl)
          change (w.server.call (.handler d)).Serves (t.conn d).command
          rw [hother d hd]
          exact hs
  case range => exact ho.range
  case port =>
    intro d p hp
    by_cases hdc : d = c
    · subst hdc
      exact hport p (hself ▸ hp)
    · exact ho.port d p (hother d hdc ▸ hp)
  case granted =>
    intro d i hd
    by_cases hdc : d = c
    · subst hdc
      rw [hself]
      exact .inr (hgranted i hd)
    · rw [hcall _ (hne d hdc), hother d hdc]
      exact ho.granted d i hd
  case answered =>
    intro d i hd
    by_cases hdc : d = c
    · subst hdc
      cases hidle.symm.trans hd
    · exact ho.answered d i (hcall _ (hne d hdc) ▸ hd)
  case once => exact ho.once
  case starting =>
    intro k i hs
    by_cases hk : k = .handler c
    · subst hk
      have hcr := hs.creating
      rw [hidle] at hcr
      cases hcr
    · exact ho.starting k i (hcall k hk ▸ hs)
  case kept => exact ho.kept
  case removed => exact ho.removed
  case handled =>
    intro d hd
    by_cases hdc : d = c
    · subst hdc
      rw [hself]
      exact .inr (hhandled hd)
    · rw [hcall _ (hne d hdc), hother d hdc]
      exact ho.handled d hd

omit [DecidableEq C] in
/-- The connection that is answered a request for a port had none. -/
theorem Owned.not_handled (ho : Owned h w) {c : C} {r : Response}
    (hc : (w.conn c).command = .allocate) (hcall : w.server.call (.handler c) = .returned r) :
    ¬ Handled h c := fun hh ↦ by
  have hs := ho.serves (.handler c)
  rw [hcall] at hs
  rcases ho.handled c hh with hr | hr
  · rw [hcall] at hr
    cases r with
    | noContent =>
        obtain ⟨p, hp⟩ := hs
        cases hc.symm.trans hp
    | _ => cases hr
  · cases hc.symm.trans hr

theorem Owned.allocated (ho : Owned h w) (hk : Known h w) {c : C} {r : Response}
    (hc : (w.conn c).command = .allocate) (g : w.server.guard (.reply c r)) :
    Owned h
      ((w.stepConn c (.allocate (allocatePort w.server r)) hc).stepServer (.reply c r) g) := by
  have hcall : w.server.call (.handler c) = .returned r := g
  have gb : (w.conn c).guard (.allocate (allocatePort w.server r)) := hc
  have hserves := ho.serves (.handler c)
  rw [hcall] at hserves
  cases r with
  | stream j =>
      -- the connection gets the port of its stream
      have hj := ho.answered c j hcall
      obtain ⟨q, hq, hport⟩ := allocatePort_stream (ho.range j (hk.lt_of_created hj))
      refine ho.answer gb g (fun p hp ↦ ?_) (fun i _ hn ↦ ?_) fun hh ↦ ?_
      · cases hq.symm.trans hp
        exact ⟨j, hj, hport⟩
      · cases hq.symm.trans hn
      · exact absurd hh (ho.not_handled hc hcall)
  | internalServerError =>
      refine ho.answer gb g nofun (fun i hi ↦ ?_) fun hh ↦ absurd hh (ho.not_handled hc hcall)
      rcases ho.granted c i hi with hr | hr
      · cases hcall.symm.trans hr
      · exact absurd (hk.rtpPort_of_allocate hc) hr
  | noContent =>
      obtain ⟨p, hp⟩ := hserves
      cases hc.symm.trans hp
  | badRequest | methodNotAllowed => exact hserves.elim

theorem Owned.freed (ho : Owned h w) (hk : Known h w) {c : C} {port : UInt16} {r : Response}
    (hc : (w.conn c).command = .freePort port) (g : w.server.guard (.reply c r)) :
    Owned h ((w.stepConn c (.freePort port) hc).stepServer (.reply c r) g) := by
  have gb : (w.conn c).guard (.freePort port) := hc
  refine ho.answer gb g (ho.port c) (fun i _ hn ↦ ?_) fun _ ↦ rfl
  cases (hk.rtpPort_of_freePort hc).symm.trans hn

/-- The step lemma. -/
theorem Owned.step (ho : Owned h w) (hk : Known h w) {a : Action C} (g : w.guard a) :
    Owned (h ++ w.emit a) (w.effect a g) := by
  have hconn : ∀ (c : C) (es : List Ingest.Event) (e : Server.Event C),
      .server e ∈ h ++ es.map (Event.conn c) ↔ .server e ∈ h := fun c es e ↦ by simp
  cases a with
  | conn c a => exact (ho.conn_step g.1 g.2).of_history (hconn c _)
  | server a => exact ho.server_step hk g.1 g.2
  | post c =>
      rw [show w.emit (.post c) = [] from rfl, List.append_nil]
      exact ho.request g.2 g.1
  | delete c port =>
      rw [show w.emit (.delete c port) = [] from rfl, List.append_nil]
      apply ho.request g.2
      rw [streamHandler_freeRequest]
      exact ⟨port, g.1, rfl⟩
  | allocated c r => exact (ho.allocated hk g.1 g.2).of_history (hconn c [_])
  | freed c port r => exact (ho.freed hk g.1 g.2).of_history (hconn c [_])

end World

variable {C : Type u} [DecidableEq C] {RTPPort : ℤ} {h : List (Event C)} {w : World C}

/-- The run lemma. -/
theorem owned_of_reach (hr : (world C RTPPort).Reach (world C RTPPort).free h w) : w.Owned h := by
  refine hr.invariant_of (I := fun h w ↦ w.Owned h) (fun _ _ hr ↦ known_of_reach hr) ?_ ?_
  · rintro _ rfl
    exact .new
  · intro h w a g hk _ ho _
    exact ho.step hk g.2

/-- **Port ownership.**  In every run of any number of connections with the server: of two
connections with the same port, the request of one to delete its stream has been handled; the
port that a connection announced is the key of the stream created for it until its request is
handled; and that request removes the one stream that was created for the connection. -/
theorem port_ownership (hr : (world C RTPPort).Reach (world C RTPPort).free h w) :
    (∀ c d p, c ≠ d → (w.conn c).state.rtpPort = some p → (w.conn d).state.rtpPort = some p →
        Handled h c ∨ Handled h d) ∧
      (∀ c p, .conn c (.replied [Ingest.announcement p]) ∈ h → ¬ Handled h c →
        ∃ i, Created h c i ∧ w.server.streams p.toNat = some i) ∧
      ∀ c port found, .server (.removed (.handler c) port found) ∈ h →
        ∃ i, found = some i ∧ Created h c i ∧ ∀ j, Created h c j → j = i := by
  have ho := owned_of_reach hr
  have hk := known_of_reach hr
  have hentry : ∀ c p, (w.conn c).state.rtpPort = some p → ¬ Handled h c →
      ∃ i, Created h c i ∧ w.server.streams p.toNat = some i := fun c p hp hn ↦ by
    obtain ⟨i, hc, hport⟩ := ho.port c p hp
    exact ⟨i, hc, hport ▸ ho.kept c i hc hn⟩
  refine ⟨fun c d p hne hc hd ↦ ?_, fun c p hm hn ↦ ?_, fun c port found hm ↦ ?_⟩
  · by_contra hn
    obtain ⟨i, hci, hi⟩ := hentry c p hc fun hh ↦ hn (.inl hh)
    obtain ⟨j, hdj, hj⟩ := hentry d p hd fun hh ↦ hn (.inr hh)
    cases hi.symm.trans hj
    exact hne (hk.created_unique hci hdj)
  · exact hentry c p ((hk.conn c).announced p (mem_filterMap_ofConn.2 hm)) hn
  · obtain ⟨i, hf, hc⟩ := ho.removed c port found hm
    exact ⟨i, hf, hc, fun j hj ↦ ho.once c j i hj hc⟩

/-- A streamer sends a dot and is told its port. -/
def ask {C : Type u} (c : C) (p : UInt16) (i : ℕ) : List (Action C) :=
  [.conn c (.read (Ingest.FtlCodec.encode ".\r\n\r\n")), .conn c .decode,
    .conn c (.sendCommand .dot), .conn c (.recvCommand .dot Ingest.zeroDraw), .post c] ++
    (create (.handler c) 0 p.toNat i).map .server ++
    [.allocated c (.stream i), .conn c (.reply [Ingest.announcement p] .dot),
      .conn c (.recvReply [Ingest.announcement p])]

/-- A port is given to the next connection as soon as its socket is closed, before the first
connection has been answered. -/
theorem port_ownership_recycled :
    ∃ h w, (world ℕ 65535).Reach (world ℕ 65535).free h w ∧
      (w.conn 0).state.rtpPort = some 5004 ∧ (w.conn 0).command = .freePort 5004 ∧
      (w.conn 1).state.rtpPort = some 5004 ∧ (Handled h 0 ∨ Handled h 1) := by
  obtain ⟨h, w, hr, h0, hc, h1⟩ := (world ℕ 65535).exists_of_exec (world ℕ 65535).free
    (fun _ w ↦ (w.conn 0).state.rtpPort = some 5004 ∧ (w.conn 0).command = .freePort 5004 ∧
      (w.conn 1).state.rtpPort = some 5004) rfl
    ((create .new 65535 65535 0).map .server ++ ask 0 5004 1 ++
      [Action.conn 0 (.write (Ingest.announcement 5004) []), .conn 0 .writeEnd, .conn 0 .eof,
        .conn 0 .recvCommandNone, .delete 0 5004, .server (.deleteLock (.handler 0) 5004),
        .server (.lookup (.handler 0) 5004 1), .server (.delete (.handler 0) 5004 1),
        .server (.deleteUnlock (.handler 0) (some 1)), .server (.connClose (.handler 0) 1)] ++
      ask 1 5004 2)
    (by decide +kernel)
  exact ⟨h, w, hr, h0, hc, h1, (port_ownership hr).1 0 1 5004 (by decide) h0 h1⟩

end ITG.System
