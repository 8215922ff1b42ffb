import ITG.Lib.Lease
import ITG.System.Ownership

/-!
# Ports are leased

What the two programs do with ports is to lease them.  A connection has its lease from the moment
it learns its port until the server handles its request to delete the stream; neither the streams,
the sockets nor the server's lock show from outside.  `world_refines_leases` says so, and what is
known of leases then holds of ports.
-/

universe u

namespace ITG.System

open ITG.Lib ITG.Webrtc

section Refinement

variable {C : Type u}

/-- The connection has the port, and its request to delete the stream has not been handled. -/
def Leased (h : List (Event C)) (w : World C) (port : ℤ) (c : C) : Prop :=
  (∃ p : UInt16, (w.conn c).state.rtpPort = some p ∧ port = p.toNat) ∧ ¬ Handled h c

/-- The lease events of the world. -/
def Event.lease : Event C → Option (Lease ℤ C)
  | .conn c (.allocated (some p)) => some (.granted p.toNat c)
  | .server (.removed (.handler c) port (some _)) => some (.returned port c)
  | _ => none

variable [DecidableEq C] {RTPPort : ℤ} {h k : List (Event C)} {w t : World C}

omit [DecidableEq C] in
/-- A request stays unhandled while none is handled. -/
theorem handled_append_iff {c : C}
    (hk : ∀ port found, .server (.removed (.handler c) port found) ∉ k) :
    Handled (h ++ k) c ↔ Handled h c := by
  constructor
  · rintro ⟨port, found, hm⟩
    exact ⟨port, found, (List.mem_append.1 hm).resolve_right (hk port found)⟩
  · rintro ⟨port, found, hm⟩
    exact ⟨port, found, List.mem_append_left _ hm⟩

omit [DecidableEq C] in
/-- A step that has nothing to do with leases. -/
theorem leased_congr (hport : ∀ c, (t.conn c).state.rtpPort = (w.conn c).state.rtpPort)
    (hk : ∀ c port found, .server (.removed (.handler c) port found) ∉ k) (port : ℤ) (c : C) :
    Leased (h ++ k) t port c ↔ Leased h w port c := by
  rw [Leased, Leased, hport, handled_append_iff (hk c)]

/-- A connection without a port learns one. -/
theorem leased_grant {c : C} {p : UInt16} (hself : (t.conn c).state.rtpPort = some p)
    (hother : ∀ d, d ≠ c → t.conn d = w.conn d) (hnone : (w.conn c).state.rtpPort = none)
    (hn : ¬ Handled h c) (hk : ∀ c port found, .server (.removed (.handler c) port found) ∉ k)
    (port : ℤ) (d : C) :
    Leased (h ++ k) t port d ↔ port = p.toNat ∧ d = c ∨ Leased h w port d := by
  rw [Leased, Leased, handled_append_iff (hk d)]
  by_cases hd : d = c
  · subst hd
    simp [hself, hnone, hn]
  · rw [hother d hd]
    simp [hd]

omit [DecidableEq C] in
/-- A request is handled. -/
theorem leased_return {c : C} {port : ℤ} {found : Option ℕ}
    (hport : ∀ c, (t.conn c).state.rtpPort = (w.conn c).state.rtpPort) (port' : ℤ) (d : C) :
    Leased (h ++ [Event.server (.removed (.handler c) port found)]) t port' d ↔
      d ≠ c ∧ Leased h w port' d := by
  by_cases hd : d = c
  · subst hd
    have hh : Handled (h ++ [Event.server (.removed (.handler d) port found)]) d :=
      ⟨port, found, List.mem_append_right _ List.mem_cons_self⟩
    simp [Leased, hh]
  · have hk : ∀ port' found', (.server (.removed (.handler d) port' found') : Event C) ∉
        [.server (.removed (.handler c) port found)] := by
      intro port' found' hm
      cases List.mem_singleton.1 hm
      exact hd rfl
    rw [Leased, Leased, hport, handled_append_iff hk]
    simp [hd]

/-- A connection that moves without a change of its port leaves all ports alone. -/
theorem rtpPort_stepConn {d : C} {b : Ingest.Action} (g : (w.conn d).guard b)
    (hb : ((w.conn d).effect b g).state.rtpPort = (w.conn d).state.rtpPort) (c : C) :
    ((w.stepConn d b g).conn c).state.rtpPort = (w.conn c).state.rtpPort := by
  have hconn : (w.stepConn d b g).conn = Function.update w.conn d ((w.conn d).effect b g) := rfl
  rw [hconn]
  by_cases hc : c = d
  · subst hc
    rw [Function.update_self, hb]
  · rw [Function.update_of_ne hc]

omit [DecidableEq C] in
/-- A connection by itself begins and ends no lease. -/
theorem lease_conn_alone (c : C) {a : Ingest.Action} (ha : a.Alone) :
    ((Ingest.Connection.emit a).map (Event.conn c)).filterMap Event.lease = [] := by
  cases a with
  | allocate r | freePort port => exact ha.elim
  | _ => rfl

omit [DecidableEq C] in
/-- The server ends a lease when it deletes an entry. -/
theorem lease_server {a : Server.Action C} (ha : ∀ k port i, a ≠ .delete k port i) :
    ((Server.emit a).map Event.server).filterMap Event.lease = [] := by
  cases a with
  | delete k port i => exact absurd rfl (ha k port i)
  | lookupNone k port => cases k <;> rfl
  | _ => rfl

/-- A connection that is about to learn its port begins a lease: nobody has one of that port. -/
theorem World.Owned.grant (ho : w.Owned h) (hk : Known h w) {c : C} {i : ℕ}
    (hc : (w.conn c).command = .allocate)
    (hcall : w.server.call (.handler c) = .returned (.stream i)) :
    ∃ p : UInt16, allocatePort w.server (.stream i) = some p ∧ ¬ Handled h c ∧
      ∀ d, ¬ Leased h w p.toNat d := by
  have hi := ho.answered c i hcall
  have hn := ho.not_handled hc hcall
  obtain ⟨p, hp, hport⟩ := allocatePort_stream (ho.range i (hk.lt_of_created hi))
  refine ⟨p, hp, hn, ?_⟩
  rintro d ⟨⟨q, hq, hpq⟩, hnd⟩
  -- the entry of that port is the stream of `c`
  obtain ⟨j, hj, hjq⟩ := ho.port d q hq
  have hentry := ho.kept c i hi hn
  rw [hport, hpq, ← hjq] at hentry
  obtain rfl : i = j := Option.some.inj (hentry.symm.trans (ho.kept d j hj hnd))
  obtain rfl := hk.created_unique hi hj
  cases (hk.rtpPort_of_allocate hc).symm.trans hq

/-- A connection whose stream is being removed has the lease of its port, and no other. -/
theorem World.Owned.leased_of_delete (ho : w.Owned h) (hk : Known h w) {k : Caller C} {port : ℤ}
    {i : ℕ} (hcall : w.server.call k = .delete port i) :
    ∃ c, k = .handler c ∧ Leased h w port c := by
  obtain ⟨c, j, rfl, hn, -⟩ := ho.of_deleting hk (.inr ⟨i, hcall⟩)
  have hs := ho.serves (.handler c)
  rw [hcall] at hs
  obtain ⟨p, hcmd, hp⟩ := hs
  exact ⟨c, rfl, ⟨p, hk.rtpPort_of_freePort hcmd, hp⟩, hn⟩

omit [DecidableEq C] in
theorem Leased.port_unique {port port' : ℤ} {c : C} (hl : Leased h w port c)
    (hl' : Leased h w port' c) : port = port' := by
  obtain ⟨⟨p, hp, rfl⟩, -⟩ := hl
  obtain ⟨⟨q, hq, rfl⟩, -⟩ := hl'
  cases hp.symm.trans hq
  rfl

/-- A look-up always finds a stream, so that a request is handled by deleting an entry. -/
theorem World.Owned.removed_notMem (ho : w.Owned h) (hk : Known h w) {a : Server.Action C}
    (g : w.server.guard a) (ha : ∀ k port i, a ≠ .delete k port i) (c : C) (port : ℤ)
    (found : Option ℕ) : .server (.removed (.handler c) port found) ∉ w.emit (.server a) := by
  intro hm
  have hm : .removed (.handler c) port found ∈ Server.emit a := by
    simpa [World.emit] using hm
  obtain ⟨-, ⟨rfl, -⟩ | ⟨i, rfl, -⟩⟩ := Server.removed_of_mem_emit g hm
  · obtain ⟨-, i, -, -, -, -, hs⟩ := ho.of_deleting hk (.inl g.1)
    cases g.2.symm.trans hs
  · exact ha _ port i rfl

/-- **The two programs lease ports**: a step of the world leaves the leases alone, or begins one
lease of a port that nobody has, or ends a lease of its holder. -/
theorem world_refines_leases :
    Simulation (world C RTPPort).withHistory (fun _ _ ↦ True) (leases ℤ C) (leases ℤ C).free
      (fun p L ↦ (world C RTPPort).Reach (world C RTPPort).free p.1 p.2 ∧
        ∀ port c, L port = some c ↔ Leased p.1 p.2 port c)
      Event.lease where
  init := by
    rintro ⟨_, _⟩ ⟨rfl, rfl⟩
    refine ⟨_, rfl, .init rfl, fun port c ↦ ?_⟩
    constructor
    · exact nofun
    · rintro ⟨⟨p, hp, -⟩, -⟩
      cases hp
  step := by
    rintro ⟨h, w⟩ L a ⟨hpan, g⟩ ⟨hr, hL⟩ -
    have ho := owned_of_reach hr
    have hk := known_of_reach hr
    have hr' := hr.step a trivial ⟨hpan, g⟩
    -- a step that has nothing to do with leases
    have hquiet (hport : ∀ c, ((w.effect a g).conn c).state.rtpPort = (w.conn c).state.rtpPort)
        (hm : ∀ c port found, .server (.removed (.handler c) port found) ∉ w.emit a)
        (hnil : (w.emit a).filterMap Event.lease = []) :
        ((world C RTPPort).Reach (world C RTPPort).free (h ++ w.emit a) (w.effect a g) ∧
            ∀ port c, L port = some c ↔ Leased (h ++ w.emit a) (w.effect a g) port c) ∧
          (w.emit a).filterMap Event.lease = [] :=
      ⟨⟨hr', fun port c ↦ (hL port c).trans (leased_congr hport hm port c).symm⟩, hnil⟩
    cases a with
    | conn d b =>
        exact .inl (hquiet (rtpPort_stepConn g.1 (Ingest.Connection.rtpPort_effect g.1 g.2))
          (by simp [World.emit]) (lease_conn_alone d g.2))
    | post d | delete d port =>
        exact .inl (hquiet (fun _ ↦ rfl) (fun _ _ _ ↦ List.not_mem_nil) rfl)
    | freed d port r =>
        have gb : (w.conn d).guard (.freePort port) := g.1
        exact .inl (hquiet (rtpPort_stepConn gb rfl) (by simp [World.emit]) rfl)
    | allocated d r =>
        have gb : (w.conn d).guard (.allocate (allocatePort w.server r)) := g.1
        have hnone := hk.rtpPort_of_allocate g.1
        cases r with
        | stream i =>
            obtain ⟨p, hp, hn, hfree⟩ := ho.grant hk g.1 g.2
            have gl : Lease.guard L (.granted (p.toNat : ℤ) d) := by
              apply Option.eq_none_iff_forall_ne_some.2
              intro c hc
              exact hfree c ((hL _ c).1 hc)
            have hself :
                ((w.effect (.allocated d (.stream i)) g).conn d).state.rtpPort = some p := by
              have hconn : (w.effect (.allocated d (.stream i)) g).conn d =
                  (w.conn d).effect (.allocate (allocatePort w.server (.stream i))) gb :=
                Function.update_self ..
              rw [hconn]
              exact hp
            refine .inr ⟨.granted p.toNat d, trivial, gl, ⟨hr', fun port c ↦ ?_⟩, ?_⟩
            · calc
                _ ↔ port = p.toNat ∧ c = d ∨ L port = some c := Lease.effect_granted_iff gl
                _ ↔ port = p.toNat ∧ c = d ∨ Leased h w port c := by rw [hL]
                _ ↔ _ := (leased_grant hself (fun c hc ↦ Function.update_of_ne hc ..) hnone hn
                  (by simp [world, World.emit]) port c).symm
            · change [Event.conn d (.allocated (allocatePort w.server (.stream i)))].filterMap
                Event.lease = _
              rw [hp]
              rfl
        | internalServerError | noContent | badRequest | methodNotAllowed =>
            exact .inl (hquiet (rtpPort_stepConn gb hnone.symm) (by simp [World.emit]) rfl)
    | server b =>
        by_cases hb : ∃ k port i, b = .delete k port i
        · obtain ⟨k, port, i, rfl⟩ := hb
          obtain ⟨c, rfl, hc⟩ := ho.leased_of_delete hk g.1
          refine .inr ⟨.returned port c, trivial, (hL port c).2 hc, ⟨hr', fun port' d ↦ ?_⟩, rfl⟩
          have hiff : port' ≠ port ∧ Leased h w port' d ↔ d ≠ c ∧ Leased h w port' d := by
            refine and_congr_left fun hd ↦ not_congr ⟨?_, ?_⟩
            · rintro rfl
              cases ((hL port' d).2 hd).symm.trans ((hL port' c).2 hc)
              rfl
            · rintro rfl
              exact hd.port_unique hc
          calc
            _ ↔ port' ≠ port ∧ L port' = some d := Lease.effect_returned_iff c
            _ ↔ port' ≠ port ∧ Leased h w port' d := by rw [hL]
            _ ↔ d ≠ c ∧ Leased h w port' d := hiff
            _ ↔ _ := (leased_return (fun _ ↦ rfl) port' d).symm
        · have hne : ∀ k port i, b ≠ .delete k port i := fun k port i he ↦ hb ⟨k, port, i, he⟩
          exact .inl (hquiet (fun _ ↦ rfl) (ho.removed_notMem hk g.1 hne) (lease_server hne))

/-! ## What is known of leases, for ports -/

/-- The leases of a run. -/
theorem leases_of_reach (hr : (world C RTPPort).Reach (world C RTPPort).free h w) :
    ∃ L, (leases ℤ C).Reach (leases ℤ C).free (h.filterMap Event.lease) L ∧
      ∀ port c, L port = some c ↔ Leased h w port c := by
  obtain ⟨L, hreach, -, hL⟩ := world_refines_leases.reach hr.withHistory
  exact ⟨L, hreach, hL⟩

omit [DecidableEq C] in
/-- A lease begins when a connection learns its port. -/
theorem eq_allocated_of_lease {e : Event C} {port : ℤ} {c : C}
    (he : e.lease = some (.granted port c)) :
    ∃ p : UInt16, e = .conn c (.allocated (some p)) ∧ port = p.toNat := by
  unfold Event.lease at he
  split at he
  · cases he
    exact ⟨_, rfl, rfl⟩
  · cases he
  · cases he

/-- **No stream is deleted before its connection knew the port**: when the server removes an entry
for a connection, that connection has been told this port before. -/
theorem removed_preceded (hr : (world C RTPPort).Reach (world C RTPPort).free h w) (c : C)
    (port : ℤ) :
    PrecededBy (fun e ↦ ∃ p : UInt16, e = .conn c (.allocated (some p)) ∧ port = p.toNat)
      (fun e ↦ ∃ i, e = .server (.removed (.handler c) port (some i))) h := by
  obtain ⟨L, hreach, -⟩ := leases_of_reach hr
  refine (Lease.returned_preceded hreach port c).of_filterMap ?_ ?_
  · rintro _ ⟨i, rfl⟩
    exact ⟨_, rfl, rfl⟩
  · rintro e _ he rfl
    exact eq_allocated_of_lease he

/-- **No port is lost**: a port that a connection was told is still its own, or its entry has been
removed on its request. -/
theorem leased_or_removed (hr : (world C RTPPort).Reach (world C RTPPort).free h w) {c : C}
    {p : UInt16} (hm : .conn c (.allocated (some p)) ∈ h) :
    Leased h w p.toNat c ∨ ∃ i, .server (.removed (.handler c) p.toNat (some i)) ∈ h := by
  obtain ⟨L, hreach, hL⟩ := leases_of_reach hr
  have hgranted : .granted (p.toNat : ℤ) c ∈ h.filterMap Event.lease :=
    List.mem_filterMap.2 ⟨_, hm, rfl⟩
  rcases Lease.leased_or_returned hreach _ c hgranted with hl | hret
  · exact .inl ((hL _ c).1 hl)
  · obtain ⟨e, he, hlease⟩ := List.mem_filterMap.1 hret
    unfold Event.lease at hlease
    split at hlease
    · cases hlease
    · cases hlease
      exact .inr ⟨_, he⟩
    · cases hlease

end Refinement

end ITG.System
