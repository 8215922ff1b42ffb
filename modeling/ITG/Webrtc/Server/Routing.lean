import Mathlib.Algebra.Group.Int.Defs
import ITG.Webrtc.Server.Teardown

/-!
# Which stream a viewer gets

`websocketHandler` looks its stream up under the port that the request names, or under the
configured port if it names none.  `createStream` puts a stream in the map under the port that its
socket is bound to.  Whether the two agree is a matter of the whole history: `Routing` is the
invariant that says so, and `routed_iff` what it comes to.

They do not agree for the configured port `0`, for which the system chooses another one.  And a
number that is no 64-bit integer counts as no number, so the viewer gets the stream at the
configured port.

The operating system binds ports from `1` to `65535`, and reads on open sockets do not fail.
-/

universe u

namespace ITG.Webrtc

open ITG.Lib

/-! ## Numerals -/

/-- The integer that a decimal numeral stands for, of any size. -/
def decimal (s : String) : Option ℤ :=
  match s.toList with
  | '-' :: ds => (digits ds).map fun n : ℕ ↦ -(n : ℤ)
  | '+' :: ds | ds => (digits ds).map fun n : ℕ ↦ (n : ℤ)

/-- `Atoi` reads those of 64 bits. -/
theorem atoi_of_decimal {s : String} {v : ℤ} (h : decimal s = some v) :
    atoi s = if -2 ^ 63 ≤ v ∧ v < 2 ^ 63 then some v else none := by
  have hnat (n : ℕ) : (if n < 2 ^ 63 then some (n : ℤ) else none) =
      if -2 ^ 63 ≤ (n : ℤ) ∧ (n : ℤ) < 2 ^ 63 then some (n : ℤ) else none := by
    congr 1
    exact propext (by omega)
  unfold atoi
  split
  · rename_i ds hs
    rw [decimal, hs] at h
    obtain ⟨n, hn, rfl⟩ := Option.map_eq_some_iff.1 h
    rw [hn, Option.bind_some]
    congr 1
    exact propext (by omega)
  · rename_i ds hs
    rw [decimal, hs] at h
    obtain ⟨n, hn, rfl⟩ := Option.map_eq_some_iff.1 h
    rw [hn, Option.bind_some]
    exact hnat n
  · rename_i hminus hplus
    unfold decimal at h
    split at h
    · rename_i ds hs
      exact (hminus ds hs).elim
    · rename_i ds hs
      exact (hplus ds hs).elim
    · obtain ⟨n, hn, rfl⟩ := Option.map_eq_some_iff.1 h
      rw [hn, Option.bind_some]
      exact hnat n

/-- The numeral of a port is read back. -/
theorem decimal_repr (n : ℕ) : decimal n.repr = some (n : ℤ) := by
  unfold decimal
  split
  · rename_i ds hds
    exact absurd (isDigit_of_toList_repr hds) (by decide)
  · rename_i ds hds
    exact absurd (isDigit_of_toList_repr hds) (by decide)
  · rw [Nat.toList_repr, digits_toDigits]
    rfl

/-! ## Requests for a websocket -/

/-- The port that `websocketHandler` looks up, for the value of the query parameter `port`. -/
def websocketPort (RTPPort : ℤ) (port : String) : ℤ :=
  if port ≠ "" then (atoi port).getD RTPPort else RTPPort

theorem websocketPort_of_decimal {RTPPort v : ℤ} {port : String} (h : decimal port = some v) :
    websocketPort RTPPort port = (atoi port).getD RTPPort := by
  have hne : port ≠ "" := by
    rintro rfl
    cases h
  rw [websocketPort, if_pos hne]

namespace Server

variable {K : Type u}

/-- `websocketHandler`, up to its look-up under the lock: the stream that the viewer is attached to,
or `none` if the answer is 404. -/
def websocketHandler (s : Server K) (RTPPort : ℤ) (port : String) : Option ℕ :=
  s.streams (websocketPort RTPPort port)

/-- The operating system binds ports from `1` to `65535`, and reads on open sockets do not fail. -/
def Sound (s : Server K) : Action K → Prop
  | .listen _ _ p => 1 ≤ p ∧ p ≤ 65535
  | .readError i => s.isOpen i = false
  | _ => True

instance (s : Server K) : ∀ a, Decidable (s.Sound a) := by
  intro a
  apply Action.casesOn (motive := fun a ↦ Decidable (s.Sound a)) a <;>
    (intros; dsimp only [Sound]; infer_instance)

theorem Sound.readsSucceed {s : Server K} {a : Action K} (h : s.Sound a) : s.ReadsSucceed a := by
  cases a with
  | readError i => exact h
  | _ => trivial

/-- A `DELETE` request has named the port. -/
def Named (as : List (Action K)) (port : ℤ) : Prop :=
  ∃ k q, .request k ⟨.delete, q⟩ ∈ as ∧ atoi q = some port

/-- The stream has been taken out of the map. -/
def Deleted (as : List (Action K)) (i : ℕ) : Prop := ∃ k port, .delete k port i ∈ as

/-- The stream has been made and not taken out of the map. -/
def Live (as : List (Action K)) (s : Server K) (i : ℕ) : Prop := s.made i = true ∧ ¬ Deleted as i

end Server

/-- The stream that a call of `createStream` has put in the map and not yet returned. -/
def CallAt.inserted : CallAt → Option ℕ
  | .createUnlock i | .start i => some i
  | _ => none

/-- The port that a call of `deleteStream` is about to remove. -/
def CallAt.deleting : CallAt → Option ℤ
  | .deleteLock port | .lookup port | .delete port _ => some port
  | _ => none

@[simp] theorem inserted_streamHandler (r : Request) : (streamHandler r).inserted = none :=
  apply_streamHandler r (fun _ ↦ rfl) (fun _ ↦ rfl) fun _ ↦ rfl

/-- Only a `DELETE` request that names the port leads to its removal. -/
theorem of_deleting_streamHandler {r : Request} {port : ℤ}
    (h : (streamHandler r).deleting = some port) :
    r.method = .delete ∧ atoi r.port = some port := by
  obtain ⟨method, q⟩ := r
  cases method with
  | post | other => cases h
  | delete =>
      refine ⟨rfl, ?_⟩
      unfold streamHandler at h
      dsimp only at h ⊢
      split at h
      · cases h
      · split at h
        · rename_i hq
          cases h
          exact hq
        · cases h

namespace Server

variable {K : Type u} [DecidableEq K] {RTPPort : ℤ} {as : List (Action K)} {s : Server K}
  {a : Action K} {k : Caller K} {i : ℕ}

/-! ## What a step does to calls and entries -/

/-- An entry stays until it is deleted: no insert overwrites it. -/
theorem streams_stay (hi : Inv s) (g : s.guard a) {p : ℤ} (hs : s.streams p = some i)
    (hd : ∀ k, a ≠ .delete k p i) : (s.effect a g).streams p = some i := by
  cases a with
  | insert k j =>
      have hnone := (hi.places.insert g).2
      have hp : p ≠ s.port j := by
        rintro rfl
        cases hnone.symm.trans hs
      simpa [effect, hp] using hs
  | delete k port j =>
      have hp : p ≠ port := by
        rintro rfl
        cases hs.symm.trans (hi.found k p j g)
        exact hd k rfl
      simpa [effect, hp] using hs
  | _ => exact hs

theorem inserted_step (g : s.guard a) (hk : ((s.effect a g).call k).inserted = some i) :
    (s.call k).inserted = some i ∨ a = .insert k i := by
  rcases of_call_step (·.inserted = some i) g hk with hk | ⟨p, q, hp, hm, hq⟩
  · exact .inl hk
  · rw [hp]
    cases hm with
    | insert =>
        cases hq
        exact .inr rfl
    | createUnlock => exact .inl hq
    | request => simp at hq
    | _ => cases hq

theorem deleting_step {port : ℤ} (g : s.guard a)
    (hk : ((s.effect a g).call k).deleting = some port) :
    (s.call k).deleting = some port ∨
      ∃ k' q, a = .request k' ⟨.delete, q⟩ ∧ atoi q = some port := by
  rcases of_call_step (·.deleting = some port) g hk with hk | ⟨p, q, hp, hm, hq⟩
  · exact .inl hk
  · rw [hp]
    cases hm with
    | @request k' r =>
        obtain ⟨method, port'⟩ := r
        obtain ⟨rfl, hport⟩ := of_deleting_streamHandler hq
        exact .inr ⟨k', port', rfl, hport⟩
    | deleteLock | lookup => exact .inl hq
    | _ => cases hq

/-- `New` listens once, at its start. -/
theorem listen_new_step {port : ℤ} (g : s.guard a)
    (hk : (s.effect a g).call .new = .listen port) : s.call .new = .listen port := by
  rcases of_call_step (· = .listen port) g hk with hk | ⟨p, q, hp, hm, hq⟩
  · exact hk
  · generalize hnew : Caller.new = k at hm
    cases hm with
    -- the caller is a handler
    | request | reply => cases hnew
    | _ => cases hq

/-! ## The invariant -/

/-- What the map says about the requests in a run with these actions. -/
structure Routing (RTPPort : ℤ) (as : List (Action K)) (s : Server K) : Prop where
  inserted : ∀ k i, (s.call k).inserted = some i → ¬ Deleted as i → s.streams (s.port i) = some i
  /-- A stream that has been returned is in the map until it is deleted. -/
  started : ∀ k i, .start k i ∈ as → ¬ Deleted as i → s.streams (s.port i) = some i
  returned : ∀ k i, s.call k = .returned (.stream i) → .start k i ∈ as
  deleting : ∀ k port, (s.call k).deleting = some port → Named as port
  /-- A stream is deleted by a request that has named its port. -/
  deleted : ∀ k port i, .delete k port i ∈ as → i < s.opened ∧ s.port i = port ∧ Named as port
  listen : ∀ port, s.call .new = .listen port → port = RTPPort
  creating : ∀ i, (s.call .new).creating = some i → RTPPort = 0 ∨ s.port i = RTPPort
  /-- The port of the initial stream is the configured one, unless that is `0`. -/
  initial : ∀ i, .start .new i ∈ as → i < s.opened ∧ (RTPPort = 0 ∨ s.port i = RTPPort)
  range : ∀ i < s.opened, 1 ≤ s.port i ∧ s.port i ≤ 65535

omit [DecidableEq K] in
theorem Named.append {port : ℤ} (h : Named as port) (bs : List (Action K)) :
    Named (as ++ bs) port := by
  obtain ⟨k, q, hm, hq⟩ := h
  exact ⟨k, q, List.mem_append_left bs hm, hq⟩

omit [DecidableEq K] in
theorem not_deleted_of_append {bs : List (Action K)} (h : ¬ Deleted (as ++ bs) i) :
    ¬ Deleted as i := by
  rintro ⟨k, port, hm⟩
  exact h ⟨k, port, List.mem_append_left bs hm⟩

namespace Routing

/-- An entry stays as long as its stream is not deleted. -/
theorem stay (hi : Inv s) (g : s.guard a) (hs : s.streams (s.port i) = some i)
    (hd : ¬ Deleted (as ++ [a]) i) : (s.effect a g).streams ((s.effect a g).port i) = some i := by
  rw [port_step g (hi.places.listed _ i hs).1]
  apply streams_stay hi g hs
  rintro k rfl
  exact hd ⟨k, _, List.mem_append_right as List.mem_cons_self⟩

theorem inserted_step (h : Routing RTPPort as s) (hi : Inv s) (g : s.guard a)
    (hk : ((s.effect a g).call k).inserted = some i) (hd : ¬ Deleted (as ++ [a]) i) :
    (s.effect a g).streams ((s.effect a g).port i) = some i := by
  rcases Server.inserted_step g hk with hs | rfl
  · exact stay hi g (h.inserted k i hs (not_deleted_of_append hd)) hd
  · simp [effect]

theorem started_step (h : Routing RTPPort as s) (hi : Inv s) (g : s.guard a)
    (hm : .start k i ∈ as ++ [a]) (hd : ¬ Deleted (as ++ [a]) i) :
    (s.effect a g).streams ((s.effect a g).port i) = some i := by
  rcases List.mem_append.1 hm with hm | hm
  · exact stay hi g (h.started k i hm (not_deleted_of_append hd)) hd
  · obtain rfl := List.mem_singleton.1 hm
    have hk : s.call k = .start i := g
    exact stay hi g (h.inserted k i (by rw [hk]; rfl) (not_deleted_of_append hd)) hd

theorem returned_step (h : Routing RTPPort as s) (g : s.guard a)
    (hk : (s.effect a g).call k = .returned (.stream i)) : .start k i ∈ as ++ [a] := by
  rcases returned_stream_step g hk with hs | rfl
  · exact List.mem_append_left _ (h.returned k i hs)
  · exact List.mem_append_right _ List.mem_cons_self

theorem deleting_step (h : Routing RTPPort as s) (g : s.guard a) {port : ℤ}
    (hk : ((s.effect a g).call k).deleting = some port) : Named (as ++ [a]) port := by
  rcases Server.deleting_step g hk with hs | ⟨k', q, rfl, hq⟩
  · exact (h.deleting k port hs).append _
  · exact ⟨k', q, List.mem_append_right _ List.mem_cons_self, hq⟩

theorem deleted_step (h : Routing RTPPort as s) (hi : Inv s) (g : s.guard a) {port : ℤ}
    (hm : .delete k port i ∈ as ++ [a]) :
    i < (s.effect a g).opened ∧ (s.effect a g).port i = port ∧ Named (as ++ [a]) port := by
  rcases List.mem_append.1 hm with hm | hm
  · obtain ⟨hlt, hport, hn⟩ := h.deleted k port i hm
    exact ⟨Nat.lt_of_lt_of_le hlt (opened_le g), (port_step g hlt).trans hport, hn.append _⟩
  · obtain rfl := List.mem_singleton.1 hm
    have hk : s.call k = .delete port i := g
    obtain ⟨hlt, hport, -⟩ := hi.places.listed port i (hi.found k port i g)
    exact ⟨hlt, hport, (h.deleting k port (by rw [hk]; rfl)).append _⟩

theorem creating_step (h : Routing RTPPort as s) (hi : Inv s) (g : s.guard a)
    (hk : ((s.effect a g).call .new).creating = some i) :
    RTPPort = 0 ∨ (s.effect a g).port i = RTPPort := by
  rcases Server.creating_step g hk with hs | ⟨rfl, port, p, rfl⟩
  · rw [port_step g (hi.creating .new i hs)]
    exact h.creating i hs
  · obtain rfl := h.listen port g.1
    refine g.2.1.imp_right fun hp ↦ ?_
    simp [effect, hp]

theorem initial_step (h : Routing RTPPort as s) (hi : Inv s) (g : s.guard a)
    (hm : .start .new i ∈ as ++ [a]) :
    i < (s.effect a g).opened ∧ (RTPPort = 0 ∨ (s.effect a g).port i = RTPPort) := by
  rcases List.mem_append.1 hm with hm | hm
  · obtain ⟨hlt, hp⟩ := h.initial i hm
    rw [port_step g hlt]
    exact ⟨Nat.lt_of_lt_of_le hlt (opened_le g), hp⟩
  · obtain rfl := List.mem_singleton.1 hm
    have hk : (s.call .new).creating = some i := by
      rw [show s.call .new = .start i from g]
      rfl
    exact ⟨hi.creating .new i hk, h.creating i hk⟩

theorem range_step (h : Routing RTPPort as s) (g : s.guard a) (hok : s.Sound a)
    (hlt : i < (s.effect a g).opened) :
    1 ≤ (s.effect a g).port i ∧ (s.effect a g).port i ≤ 65535 := by
  by_cases hi : i < s.opened
  · rw [port_step g hi]
    exact h.range i hi
  · cases a with
    | listen k port p =>
        obtain rfl : i = s.opened := Nat.le_antisymm (Nat.le_of_lt_succ hlt) (Nat.le_of_not_lt hi)
        simpa [effect, Sound] using hok
    | _ => exact absurd hlt hi

/-- The step lemma. -/
theorem step (h : Routing RTPPort as s) (hi : Inv s) (g : s.guard a) (hok : s.Sound a) :
    Routing RTPPort (as ++ [a]) (s.effect a g) where
  inserted _ _ := h.inserted_step hi g
  started _ _ := h.started_step hi g
  returned _ _ := h.returned_step g
  deleting _ _ := h.deleting_step g
  deleted _ _ _ := h.deleted_step hi g
  listen port hk := h.listen port (listen_new_step g hk)
  creating _ := h.creating_step hi g
  initial _ := h.initial_step hi g
  range _ := h.range_step g hok

theorem new : Routing RTPPort [] (.new RTPPort : Server K) := by
  have hcall := call_new (K := K) RTPPort
  constructor
  case inserted | returned | deleting =>
    intro k _ hk
    rcases hcall k with h | h <;> rw [h] at hk <;> cases hk
  case listen =>
    intro port hk
    cases hk
    rfl
  case creating => exact nofun
  case started => exact fun _ _ h ↦ absurd h List.not_mem_nil
  case deleted => exact fun _ _ _ h ↦ absurd h List.not_mem_nil
  case initial => exact fun _ h ↦ absurd h List.not_mem_nil
  case range => exact fun _ h ↦ absurd h (Nat.not_lt_zero _)

end Routing

end Server

/-! ## Runs -/

open Server

variable {K : Type u} [DecidableEq K] {RTPPort : ℤ} {as : List (Server.Action K)} {s : Server K}
  {i₀ : ℕ}

theorem inv_of_sound (hr : (server K RTPPort).traced.Reach Sound as s) : Inv s :=
  server_inv_of_reach ((hr.of_traced fun _ _ ↦ rfl).mono fun _ _ h ↦ h.readsSucceed)

/-- The run lemma. -/
theorem routing_of_reach (hr : (server K RTPPort).traced.Reach Sound as s) :
    Routing RTPPort as s := by
  refine hr.invariant_of (J := fun _ s ↦ Inv s) (I := Routing RTPPort) ?_ ?_ ?_
  · intro as s hr
    exact inv_of_sound hr
  · rintro _ rfl
    exact .new
  · intro as s a g hi _ hs hok
    exact hs.step hi g.2 hok

/-- Where a request for a websocket should lead, with this value of its query parameter `port`. -/
structure Routed (RTPPort : ℤ) (as : List (Server.Action K)) (s : Server K) (i₀ : ℕ)
    (port : String) : Prop where
  /-- Without a port, to the initial stream, unless a `DELETE` has named its port. -/
  initial : port = "" → ¬ Named as (s.port i₀) → s.websocketHandler RTPPort port = some i₀
  /-- With the port of a stream that a `POST` has returned, to this stream, until it is deleted. -/
  created : ∀ k i, .start (.handler k) i ∈ as → ¬ Deleted as i → decimal port = some (s.port i) →
    s.websocketHandler RTPPort port = some i
  /-- With any other number, nowhere. -/
  unknown : ∀ v, decimal port = some v → (∀ i, Live as s i → s.port i ≠ v) →
    s.websocketHandler RTPPort port = none

/-- What the map has is live. -/
theorem live_of_streams (hr : (server K RTPPort).traced.Reach Sound as s) {p : ℤ} {i : ℕ}
    (hs : s.streams p = some i) : Live as s i ∧ s.port i = p := by
  obtain ⟨-, hport, hfl⟩ := (inv_of_sound hr).places.listed p i hs
  refine ⟨⟨congrArg (·.2.1) hfl, ?_⟩, hport⟩
  rintro ⟨k, port, hm⟩
  have htorn : .delete k port i ∈ torn as i := List.mem_filter.2 ⟨hm, by simp [Action.tears]⟩
  rw [((torn_of_reach hr).listed p i hs).2.2] at htorn
  cases htorn

/-- A live stream has a port that a socket can be bound to. -/
theorem port_of_live (hr : (server K RTPPort).traced.Reach Sound as s) {i : ℕ}
    (hl : Live as s i) : 1 ≤ s.port i ∧ s.port i ≤ 65535 :=
  (routing_of_reach hr).range i ((inv_of_sound hr).lt_of_made hl.1)

omit [DecidableEq K] in
/-- A port in range is read back. -/
theorem websocketHandler_of_port {port : String} {i : ℕ} (hd : decimal port = some (s.port i))
    (hp : 1 ≤ s.port i ∧ s.port i ≤ 65535) :
    s.websocketHandler RTPPort port = s.streams (s.port i) := by
  rw [websocketHandler, websocketPort_of_decimal hd, atoi_of_decimal hd, if_pos (by omega),
    Option.getD_some]

/-- A request without a port leads to the initial stream, unless the configured port is `0`. -/
theorem initial_iff (hr : (server K RTPPort).traced.Reach Sound as s)
    (hnew : s.call .new = .returned (.stream i₀)) :
    (¬ Named as (s.port i₀) → s.websocketHandler RTPPort "" = some i₀) ↔
      RTPPort ≠ 0 ∨ Named as (s.port i₀) := by
  have hrouting := routing_of_reach hr
  have hstart := hrouting.returned .new i₀ hnew
  change (_ → s.streams RTPPort = some i₀) ↔ _
  constructor
  · intro h
    by_contra hno
    obtain ⟨h0, hn⟩ := not_or.1 hno
    obtain rfl : RTPPort = 0 := not_not.1 h0
    -- no stream has the port `0`
    obtain ⟨hl, hport⟩ := live_of_streams hr (h hn)
    have hrange := port_of_live hr hl
    omega
  · rintro (h0 | hn) hno
    · have hdel : ¬ Deleted as i₀ := by
        rintro ⟨k, port, hm⟩
        obtain ⟨-, rfl, hn⟩ := hrouting.deleted k port i₀ hm
        exact hno hn
      rw [← (hrouting.initial i₀ hstart).2.resolve_left h0]
      exact hrouting.started .new i₀ hstart hdel
    · exact absurd hn hno

/-- A request with the port of a stream that has been returned leads to it. -/
theorem websocketHandler_of_started (hr : (server K RTPPort).traced.Reach Sound as s) {k : Caller K}
    {i : ℕ} {port : String} (hm : .start k i ∈ as) (hdel : ¬ Deleted as i)
    (hd : decimal port = some (s.port i)) : s.websocketHandler RTPPort port = some i := by
  have hs := (routing_of_reach hr).started k i hm hdel
  rw [websocketHandler_of_port hd (port_of_live hr (live_of_streams hr hs).1), hs]

/-- A request with a number that is no port of a live stream leads nowhere, unless the number does
not fit into 64 bits and there is a stream at the configured port. -/
theorem unknown_iff (hr : (server K RTPPort).traced.Reach Sound as s) {port : String} {v : ℤ}
    (hd : decimal port = some v) :
    ((∀ i, Live as s i → s.port i ≠ v) → s.websocketHandler RTPPort port = none) ↔
      (atoi port = none → s.streams RTPPort = none) := by
  rw [websocketHandler, websocketPort_of_decimal hd, atoi_of_decimal hd]
  by_cases hfit : -2 ^ 63 ≤ v ∧ v < 2 ^ 63
  · rw [if_pos hfit, Option.getD_some]
    refine iff_of_true (fun h ↦ ?_) nofun
    apply Option.eq_none_iff_forall_ne_some.2
    intro i hs
    obtain ⟨hl, hport⟩ := live_of_streams hr hs
    exact h i hl hport
  · rw [if_neg hfit, Option.getD_none]
    have hno : ∀ i, Live as s i → s.port i ≠ v := by
      rintro i hl rfl
      have hrange := port_of_live hr hl
      omega
    exact ⟨fun h _ ↦ h hno, fun h _ ↦ h rfl⟩

/-- **Where viewers are led.**  In every run in which `New` has succeeded, a request for a websocket
leads where it should if and only if, when it has no port, the configured port is not `0` or a
`DELETE` has named the port of the initial stream, and, when it has a number that does not fit into
64 bits, there is no stream at the configured port. -/
theorem routed_iff (hr : (server K RTPPort).traced.Reach Sound as s)
    (hnew : s.call .new = .returned (.stream i₀)) (port : String) :
    Routed RTPPort as s i₀ port ↔
      (port = "" → RTPPort ≠ 0 ∨ Named as (s.port i₀)) ∧
        ((decimal port).isSome = true → atoi port = none → s.streams RTPPort = none) := by
  constructor
  · intro h
    constructor
    · rintro rfl
      exact (initial_iff hr hnew).1 (h.initial rfl)
    · intro hd
      obtain ⟨v, hv⟩ := Option.isSome_iff_exists.1 hd
      exact (unknown_iff hr hv).1 (h.unknown v hv)
  · rintro ⟨hinitial, hunknown⟩
    constructor
    case initial =>
      rintro rfl
      exact (initial_iff hr hnew).2 (hinitial rfl)
    case created =>
      intro k i hm hdel hd
      exact websocketHandler_of_started hr hm hdel hd
    case unknown =>
      intro v hv
      exact (unknown_iff hr hv).2 (hunknown (by rw [hv]; rfl))

/-- A stream is made on port 5004 and deleted, and another one is made there. -/
def reuse : List (Server.Action Unit) :=
  create .new 65535 65535 0 ++ Server.Action.request () ⟨.post, ""⟩ ::
    create (.handler ()) 0 5004 1 ++ Server.Action.reply () (.stream 1) ::
    .request () ⟨.delete, "5004"⟩ :: remove (.handler ()) 5004 1 ++
    Server.Action.reply () .noContent :: .request () ⟨.post, "5004"⟩ ::
    create (.handler ()) 5004 5004 2

/-- A viewer that names the port gets the new stream, and one that names none the initial stream. -/
theorem routed_iff_reuse :
    ∃ s, (server Unit 65535).traced.Reach Sound reuse s ∧
      s.websocketHandler 65535 "5004" = some 2 ∧ s.websocketHandler 65535 "" = some 0 := by
  obtain ⟨s, hr, hnew, hp, hp0⟩ := (server Unit 65535).exists_of_schedule Sound
    (fun s ↦ s.call .new = .returned (.stream 0) ∧ s.port 2 = 5004 ∧ s.port 0 = 65535) rfl
    reuse (by decide +kernel)
  have h5004 := (routed_iff hr hnew "5004").2 ⟨nofun, fun _ h ↦ absurd h (by decide +kernel)⟩
  have hnone := (routed_iff hr hnew "").2 ⟨fun _ ↦ .inl (by decide), nofun⟩
  refine ⟨s, hr, h5004.created () 2 ?_ ?_ ?_, hnone.initial rfl ?_⟩
  · simp [reuse, create]
  · rintro ⟨k, port, hm⟩
    simp [reuse, create, remove] at hm
  · rw [hp]
    decide +kernel
  · rintro ⟨k, q, hm, hq⟩
    obtain rfl : q = "5004" := by simpa [reuse, create, remove] using hm
    rw [hp0] at hq
    exact absurd hq (by decide +kernel)

/-- With the configured port `0`, a request without a port gets 404, though nothing has been
deleted.  With another one, a request with a number of more than 64 bits gets the initial stream. -/
theorem misrouted :
    (∃ s, (server Unit 0).traced.Reach Sound (create .new 0 5004 0) s ∧
      s.call .new = .returned (.stream 0) ∧ ¬ Named (create (K := Unit) .new 0 5004 0) (s.port 0) ∧
      s.websocketHandler 0 "" = none) ∧
    ∃ s, (server Unit 65535).traced.Reach Sound (create .new 65535 65535 0) s ∧
      s.call .new = .returned (.stream 0) ∧
      decimal "9223372036854775808" = some 9223372036854775808 ∧
      (∀ i, Live (create .new 65535 65535 0) s i → s.port i ≠ 9223372036854775808) ∧
      s.websocketHandler 65535 "9223372036854775808" = some 0 := by
  constructor
  · obtain ⟨s, hr, hnew, hroute⟩ := (server Unit 0).exists_of_schedule Sound
      (fun s ↦ s.call .new = .returned (.stream 0) ∧ s.websocketHandler 0 "" = none) rfl
      (create .new 0 5004 0) (by decide +kernel)
    refine ⟨s, hr, hnew, ?_, hroute⟩
    rintro ⟨k, q, hm, -⟩
    simp [create] at hm
  · obtain ⟨s, hr, hnew, hroute⟩ := (server Unit 65535).exists_of_schedule Sound
      (fun s ↦ s.call .new = .returned (.stream 0) ∧
        s.websocketHandler 65535 "9223372036854775808" = some 0) rfl
      (create .new 65535 65535 0) (by decide +kernel)
    refine ⟨s, hr, hnew, by decide +kernel, fun i hl ↦ ?_, hroute⟩
    have hrange := port_of_live hr hl
    omega

end ITG.Webrtc
