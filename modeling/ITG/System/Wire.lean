import Mathlib.Algebra.Group.Int.Defs
import ITG.Lib.Query
import ITG.System.Ownership
import ITG.Webrtc.Messages

/-!
# Requests and answers as texts

What passes between the two programs are texts.  `allocate_port` and `free_port` name the port in
the query of a URL, and the answer to the first is a JSON text.  In `wire` each side has nothing but
the text of the other: `streamHandler` the query, and `allocate_port` the body, in which it looks
for a field `port` whatever the status says.  `wire_iff_world` says that nothing gets lost in
between.

`allocate_port` reads with `serde_json`, which is left open: all that is asked of it is `Reads`,
that it reads an object with one number, and takes neither nothing nor `listen` for JSON.

An error is reported by its text.  Those of `net.ListenUDP` begin with `listen`, so they are no JSON
texts; that no other error has a text that is one is the discipline `NoJson`.
-/

universe u v

namespace ITG.Webrtc

open ITG.Lib

/-! ## Requests -/

/-- What `streamHandler` reads of a request: its method and `r.URL.Query().Get("port")`. -/
def Request.ofQuery (method : Method) (query : List Char) : Request :=
  ⟨method, .ofList (Query.get "port".toList query)⟩

/-! ## Answers -/

/-- The map that is encoded for a stream. -/
def streamJson (port : ℤ) : Json := .obj [("port", .num port.repr)]

/-- The body of an answer.  `Encode` and `http.Error` end it with a line end. -/
def Response.body {K : Type u} (s : Server K) (message : List Char) : Response → List Char
  | .stream i => Json.render goEscape (streamJson (s.port i)) ++ ['\n']
  | .internalServerError => message ++ ['\n']
  | .noContent | .badRequest | .methodNotAllowed => []

end ITG.Webrtc

namespace ITG.System

open ITG.Lib ITG.Webrtc

/-- The query of `{base}/stream?port={port}`. -/
def freeQuery (port : UInt16) : List Char := "port".toList ++ '=' :: (toString port.toNat).toList

/-- What `allocate_port` uses of `serde_json`: `from_slice`, by which `Response::json` reads a body,
and two methods of `Value`. -/
structure SerdeJson (Value : Type v) where
  fromSlice : List Char → Option Value
  get : String → Value → Option Value
  asU64 : Value → Option UInt64

/-- Texts are read by the grammar of JSON. -/
structure SerdeJson.Reads {Value : Type v} (S : SerdeJson Value) : Prop where
  /-- An object with one member, which is a `u64`. -/
  member : ∀ (name : String) (n : UInt64), ∃ object number,
    S.fromSlice (Json.render goEscape (.obj [(name, .num n.toNat.repr)]) ++ ['\n']) = some object ∧
      S.get name object = some number ∧ S.asU64 number = some n
  empty : S.fromSlice [] = none
  /-- No value begins with this letter. -/
  listen : ∀ cs, S.fromSlice ('l' :: cs) = none

section Ports

variable {Value : Type v} (S : SerdeJson Value)

/-- What `allocate_port` makes of a body. -/
def readPort (body : List Char) : Option UInt16 :=
  (S.fromSlice body).bind fun v ↦ ((S.get "port" v).bind S.asU64).map UInt64.toUInt16

theorem ofQuery_allocate : Request.ofQuery .post [] = allocateRequest := rfl

theorem ofQuery_free (port : UInt16) :
    Request.ofQuery .delete (freeQuery port) = freeRequest port := by
  have hdigits : ∀ c ∈ (toString port.toNat).toList, Query.Plain c := by
    intro c hc
    apply Query.plain_of_isDigit
    change c ∈ port.toNat.repr.toList at hc
    rw [Nat.toList_repr] at hc
    exact Nat.isDigit_of_mem_toDigits (by decide) (by decide) hc
  have hname : ∀ c ∈ "port".toList, Query.Plain c := by
    have hport : "port".toList = ['p', 'o', 'r', 't'] := rfl
    simp only [hport, List.forall_mem_cons]
    exact ⟨by decide, by decide, by decide, by decide, List.forall_mem_nil _⟩
  rw [Request.ofQuery, freeQuery, Query.get_plain hname hdigits, String.ofList_toList, freeRequest]

variable {S}

/-- The port of a stream is read back. -/
theorem readPort_stream (hS : S.Reads) {port : ℤ} (h : 0 ≤ port) (hlt : port < 2 ^ 64) :
    readPort S (Json.render goEscape (streamJson port) ++ ['\n']) = some (.ofNat port.toNat) := by
  obtain ⟨n, rfl⟩ := Int.eq_ofNat_of_zero_le h
  have hn : (UInt64.ofNat n).toNat = n :=
    UInt64.toNat_ofNat_of_lt' (Int.ofNat_lt.1 (by exact_mod_cast hlt))
  obtain ⟨object, number, hparse, hget, hread⟩ := hS.member "port" (.ofNat n)
  rw [hn] at hparse
  have htext : streamJson n = .obj [("port", .num n.repr)] := rfl
  rw [readPort, htext, hparse, Option.bind_some, hget, Option.bind_some, hread, Option.map_some,
    UInt64.toUInt16_ofNat', Int.toNat_natCast]

/-- The connection reads what the server means. -/
theorem readPort_body (hS : S.Reads) {K : Type u} {s : Server K} {r : Response}
    {message : List Char} (hport : ∀ i, r = .stream i → 0 ≤ s.port i ∧ s.port i < 2 ^ 64)
    (hm : S.fromSlice (message ++ ['\n']) = none) :
    readPort S (r.body s message) = allocatePort s r := by
  have hnone : ∀ {body}, S.fromSlice body = none → readPort S body = none := fun hbody ↦ by
    rw [readPort, hbody]
    rfl
  cases r with
  | stream i =>
      obtain ⟨h0, hlt⟩ := hport i rfl
      rw [Response.body, readPort_stream hS h0 hlt, allocatePort, if_pos h0]
  | internalServerError => exact hnone hm
  | noContent | badRequest | methodNotAllowed => exact hnone hS.empty

end Ports

/-! ## The world with texts -/

/-- A step of the world.  If it brings an answer with an error, this is the text of the error. -/
structure Wire (C : Type u) where
  step : Action C
  message : List Char

/-- Whether a request can be taken does not depend on what it asks for. -/
theorem guard_request_of_guard {K : Type u} [DecidableEq K] {s : Server K} {k : K} {r r' : Request}
    (g : s.guard (.request k r)) : s.guard (.request k r') :=
  g

namespace Wire

variable {Value : Type v} (S : SerdeJson Value) {C : Type u} [DecidableEq C]

/-- The state after an enabled action. -/
def effect (w : World C) : (a : Wire C) → w.guard a.step → World C
  | ⟨.post c, _⟩, g => w.stepServer (.request c (.ofQuery .post [])) (guard_request_of_guard g.2)
  | ⟨.allocated c r, message⟩, g =>
      (w.stepConn c (.allocate (readPort S (r.body w.server message))) g.1).stepServer
        (.reply c r) g.2
  | ⟨.delete c port, _⟩, g =>
      w.stepServer (.request c (.ofQuery .delete (freeQuery port))) (guard_request_of_guard g.2)
  | ⟨.conn c a, _⟩, g => w.stepConn c a g.1
  | ⟨.server a, _⟩, g => w.stepServer a g.1
  | ⟨.freed c port r, _⟩, g => (w.stepConn c (.freePort port) g.1).stepServer (.reply c r) g.2

/-- The events of an action. -/
def emit (w : World C) : Wire C → List (Event C)
  | ⟨.allocated c r, message⟩ => [.conn c (.allocated (readPort S (r.body w.server message)))]
  | ⟨a, _⟩ => w.emit a

/-- The text of an error is no JSON text. -/
def NoJson (_ : World C) (a : Wire C) : Prop := S.fromSlice (a.message ++ ['\n']) = none

instance : ∀ (w : World C) (a : Wire C), Decidable (NoJson S w a) :=
  fun _ _ ↦ decidable_of_iff _ Option.isNone_iff_eq_none

end Wire

/-- The world, in which requests and answers are texts, as a transition system. -/
def wire {Value : Type v} (S : SerdeJson Value) (C : Type u) [DecidableEq C] (RTPPort : ℤ) :
    Machine (World C) (Wire C) (Event C) where
  init w := w = ⟨fun _ ↦ .new, .new RTPPort⟩
  guard w a := w.server.panicked = false ∧ w.guard a.step
  effect w a g := Wire.effect S w a g.2
  emit w a := Wire.emit S w a

instance {Value : Type v} {S : SerdeJson Value} {C : Type u} [DecidableEq C] {RTPPort : ℤ} :
    ∀ w a, Decidable ((wire S C RTPPort).guard w a) :=
  fun w a ↦ inferInstanceAs (Decidable (w.server.panicked = false ∧ w.guard a.step))

section Runs

variable {Value : Type v} {S : SerdeJson Value} {C : Type u} [DecidableEq C] {RTPPort : ℤ}
  {h : List (Event C)} {w : World C} {a : Wire C}

/-- The ports of answers fit. -/
theorem World.Owned.readPort_eq (ho : w.Owned h) (hk : Known h w) (hS : S.Reads) {c : C}
    {r : Response} (g : w.server.guard (.reply c r)) (hm : Wire.NoJson S w a) :
    readPort S (r.body w.server a.message) = allocatePort w.server r := by
  refine readPort_body hS ?_ hm
  rintro i rfl
  obtain ⟨h1, h2⟩ := ho.range i (hk.lt_of_created (ho.answered c i g))
  exact ⟨by omega, by omega⟩

/-- A step with texts is one without. -/
theorem World.Owned.wire_step (ho : w.Owned h) (hk : Known h w) (hS : S.Reads)
    (hm : Wire.NoJson S w a) (g : w.guard a.step) :
    Wire.effect S w a g = w.effect a.step g ∧ Wire.emit S w a = w.emit a.step := by
  obtain ⟨a, message⟩ := a
  cases a with
  | allocated c r =>
      have hread : readPort S (r.body w.server message) = allocatePort w.server r :=
        ho.readPort_eq hk hS g.2 hm
      simp only [Wire.effect, World.effect, Wire.emit, World.emit, hread, and_self]
  | post c =>
      refine ⟨?_, rfl⟩
      simp only [Wire.effect, World.effect, ofQuery_allocate]
  | delete c port =>
      refine ⟨?_, rfl⟩
      simp only [Wire.effect, World.effect, ofQuery_free]
  | conn c a | server a | freed c port r => exact ⟨rfl, rfl⟩

/-- **Nothing is lost in the texts.**  What the two programs do when they have nothing but the texts
of the other's requests and answers is what they do when they have the requests and answers
themselves, as long as no error has a JSON text. -/
theorem wire_iff_world (hS : S.Reads) : (wire S C RTPPort).Reach (Wire.NoJson S) h w ↔
    (world C RTPPort).Reach (world C RTPPort).free h w := by
  constructor
  · intro hr
    refine hr.invariant (I := fun h w ↦ (world C RTPPort).Reach (world C RTPPort).free h w) ?_ ?_
    · intro w hw
      exact .init hw
    · intro h w a g hr hm
      obtain ⟨heffect, hemit⟩ := (owned_of_reach hr).wire_step (known_of_reach hr) hS hm g.2
      have hstep := hr.step a.step trivial g
      change (world C RTPPort).Reach _ (h ++ Wire.emit S w a) (Wire.effect S w a g.2)
      rw [heffect, hemit]
      exact hstep
  · intro hr
    refine hr.invariant_of (I := fun h w ↦ (wire S C RTPPort).Reach (Wire.NoJson S) h w)
      (fun _ _ hr ↦ And.intro (known_of_reach hr) (owned_of_reach hr)) ?_ ?_
    · intro w hw
      exact .init hw
    · rintro h w a g ⟨hk, ho⟩ - hr -
      have hm : Wire.NoJson S w ⟨a, "listen udp".toList⟩ := hS.listen _
      obtain ⟨heffect, hemit⟩ := ho.wire_step hk hS hm g.2
      have g' : (wire S C RTPPort).guard w ⟨a, "listen udp".toList⟩ := g
      have hstep : (wire S C RTPPort).Reach (Wire.NoJson S) (h ++ Wire.emit S w ⟨a, _⟩)
          (Wire.effect S w ⟨a, _⟩ g.2) := hr.step _ hm g'
      rw [heffect, hemit] at hstep
      exact hstep

/-- A reader of the grammar of JSON. -/
def plainJson : SerdeJson Json where
  fromSlice := Json.parse
  get := Json.get
  asU64
    | .num lit => ((digits lit.toList).filter (· < 2 ^ 64)).map .ofNat
    | _ => none

theorem plainJson_reads : plainJson.Reads where
  member name n := by
    have hwell : (Json.obj [(name, .num n.toNat.repr)]).wellFormed = true := by
      simp only [Json.wellFormed, Json.wellFormedFields, Json.isNumber_repr, Bool.and_self]
    refine ⟨_, .num n.toNat.repr, Json.parse_render goEscape hwell rfl, ?_, ?_⟩
    · simp [plainJson, Json.get]
    · change ((digits n.toNat.repr.toList).filter (· < 2 ^ 64)).map UInt64.ofNat = _
      rw [Nat.toList_repr, digits_toDigits, Option.filter_some_pos, Option.map_some,
        UInt64.ofNat_toNat]
      exact decide_eq_true n.toNat_lt
  empty := rfl
  listen _ := rfl

/-- A streamer is given the port `5004`, in texts. -/
theorem wire_iff_world_opening :
    ∃ h w, (wire plainJson ℕ 65535).Reach (Wire.NoJson plainJson) h w ∧
      (world ℕ 65535).Reach (world ℕ 65535).free h w ∧
      .conn 0 (.replied [Ingest.announcement 5004]) ∈ h := by
  obtain ⟨h, w, hr, ha⟩ := (wire plainJson ℕ 65535).exists_of_exec (Wire.NoJson plainJson)
    (fun h _ ↦ .conn 0 (.replied [Ingest.announcement 5004]) ∈ h) rfl
    (((create .new 65535 65535 0).map Action.server ++ ask 0 5004 1).map fun a ↦
      ⟨a, "listen udp".toList⟩) (by decide +kernel)
  exact ⟨h, w, hr, (wire_iff_world plainJson_reads).1 hr, ha⟩

end Runs

end ITG.System
