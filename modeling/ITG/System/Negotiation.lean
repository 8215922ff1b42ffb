import ITG.System.Signalling

/-!
# The negotiation with a viewer

What a stream and a viewer are to do with each other: the server offers, the page sets the offer as
its remote description and creates an answer, the server sets the answer as its remote description,
and then it may be told of the candidates of the page.  `Stage.Next` is that protocol, for one
viewer and with nothing on its way.

In the system the offer and the answer pass the hub, two loops and a websocket, candidates and
counts are under way at the same time, and each of the parties may stop anywhere.  Still its runs
are, for every viewer, runs of the protocol: `negotiation_in_order`.  In the middle of a run each
step of the protocol has left its trace in one place of the system, which is what `Agrees` says.

Candidates of the server are not part of the protocol, as they may reach the page before the offer.
Nor are renewed websockets: a page keeps its peer connection over them, and with it the candidates
of an answer that it has given before.
-/

universe u v w

namespace ITG.System

open ITG.Lib ITG.Webrtc ITG.Frontend

/-! ## The protocol -/

/-- The steps of a negotiation. -/
inductive Deal (K D : Type w) where
  /-- The offer has been handed to `WriteLoop`. -/
  | offered
  /-- The page has set a remote description. -/
  | described (description : Json)
  /-- The page has set its answer as local description. -/
  | answered (answer : Json.Object)
  /-- The server has set a remote description. -/
  | accepted (description : D)
  /-- The server has added a candidate. -/
  | candidate (candidate : K)

/-- How far a negotiation has come. -/
inductive Stage (K : Type w) {D : Type w} (decode : Json → Option D) where
  | idle
  | offered
  | described
  | answered (answer : Json.Object)
  | accepted (answer : Json.Object) (description : D) (h : decode answer.json = some description)
      (candidates : List K)

namespace Stage

variable {K D : Type w} {decode : Json → Option D}

/-- The steps up to a stage. -/
def trail (offer : Json) : Stage K decode → List (Deal K D)
  | .idle => []
  | .offered => [.offered]
  | .described => [.offered, .described offer]
  | .answered answer => [.offered, .described offer, .answered answer]
  | .accepted answer description _ candidates =>
      [.offered, .described offer, .answered answer, .accepted description] ++
        candidates.map .candidate

/-- The stage that follows by a step. -/
inductive Next (offer : Json) : Stage K decode → Deal K D → Stage K decode → Prop where
  | offered : Next offer .idle .offered .offered
  | described : Next offer .offered (.described offer) .described
  | answered (answer : Json.Object) : Next offer .described (.answered answer) (.answered answer)
  | accepted (answer : Json.Object) (description : D) (h : decode answer.json = some description) :
      Next offer (.answered answer) (.accepted description) (.accepted answer description h [])
  | candidate (answer : Json.Object) (description : D) (h : decode answer.json = some description)
      (candidates : List K) (candidate : K) :
      Next offer (.accepted answer description h candidates) (.candidate candidate)
        (.accepted answer description h (candidates ++ [candidate]))

/-- The trail of a stage says how it was reached. -/
theorem Next.trail {offer : Json} {st st' : Stage K decode} {e : Deal K D}
    (h : st.Next offer e st') : st'.trail offer = st.trail offer ++ [e] := by
  cases h with
  | candidate answer description h candidates candidate =>
      rw [Stage.trail, List.map_append, ← List.append_assoc]
      rfl
  | offered | described | answered answer | accepted answer description h => rfl

end Stage

namespace Signalling

/-! ## The negotiation in the system -/

section Deals

variable {C : Type u} [DecidableEq C] {K D : Type w} (c : C)

/-- The step of the negotiation that an event of the page is. -/
def pageDeal? : App.Event → Option (Deal K D)
  | .setRemoteDescription description => some (.described description)
  | .setLocalDescription answer => some (.answered answer)
  | _ => none

/-- The step that a reaction of `ReadLoop` is. -/
def serverDeal? : Reaction K D → Option (Deal K D)
  | .setRemoteDescription description => some (.accepted description)
  | .addICECandidate candidate => some (.candidate candidate)
  | _ => none

/-- The step of the negotiation with this viewer that an event is. -/
def Event.deal? : Event C K D → Option (Deal K D)
  | .hub (.received d .offer) => if d = c then some .offered else none
  | .page d e => if d = c then pageDeal? e else none
  | .server d r => if d = c then serverDeal? r else none
  | _ => none

/-- The steps of the negotiation with this viewer. -/
def deals (h : List (Event C K D)) : List (Deal K D) := h.filterMap (Event.deal? c)

@[simp] theorem deals_append (h k : List (Event C K D)) :
    deals c (h ++ k) = deals c h ++ deals c k :=
  List.filterMap_append

theorem deals_map (d : C) (es : List App.Event) :
    deals c (es.map (.page d) : List (Event C K D)) =
      if d = c then es.filterMap pageDeal? else [] := by
  rw [deals, List.filterMap_map]
  by_cases hd : d = c
  · subst hd
    rw [if_pos rfl]
    exact congrArg (List.filterMap · es) (funext fun e ↦ if_pos rfl)
  · simp [Event.deal?, Function.comp_def, hd]

/-- The hub takes part with the offers that it hands over. -/
theorem deals_hub (es : List (Webrtc.Event C)) :
    deals c (es.map (.hub) : List (Event C K D)) =
      ((taken c es).filter (· = .offer)).map fun _ ↦ .offered := by
  induction es with
  | nil => rfl
  | cons e es ih =>
      rw [List.map_cons, ← List.singleton_append, deals_append, ih]
      cases e with
      | received d m =>
          by_cases hd : d = c
          · cases m <;> simp [deals, Event.deal?, taken, Event.taken?, hd]
          · cases m <;> simp [deals, Event.deal?, taken, Event.taken?, hd]
      | _ => rfl

end Deals

/-- What the client's `WriteLoop` has taken and its page has not yet received. -/
def transit {C : Type u} {T : Type v} (s : Signalling C T) (c : C) : List Message :=
  s.down c ++ (s.hub.writer c).held

end Signalling

namespace Stage

variable {K D : Type w} {decode : Json → Option D}

/-- How many offers may be on their way. -/
def offers : Stage K decode → ℕ
  | .offered => 1
  | .idle | .described | .answered _ | .accepted .. => 0

/-- How many handlers of the page may be waiting for an answer. -/
def awaiting : Stage K decode → ℕ
  | .described => 1
  | .idle | .offered | .answered _ | .accepted .. => 0

/-- The page has answered. -/
def isAnswered : Stage K decode → Bool
  | .answered _ | .accepted .. => true
  | .idle | .offered | .described => false

/-- The texts are those of candidates. -/
def Candidates (up : List (String × Json.Object)) : Prop := ∀ x ∈ up, x.1 = messageTypeCandidate

/-- What may be on its way to a `ReadLoop` that goes on or does not.  The answer comes first. -/
def Up (reading : Prop) (up : List (String × Json.Object)) : Stage K decode → Prop
  | .idle | .offered | .described => up = []
  | .answered answer =>
      reading → ∃ xs, up = (messageTypeAnswer, answer) :: xs ∧ Candidates xs
  | .accepted .. => Candidates up

end Stage

namespace Signalling

variable {C : Type u} {T : Type v} {K D : Type w} {decode : Json → Option D}

/-- The system is at this stage with a viewer. -/
structure Agrees (s : Signalling C T) (c : C) (st : Stage K decode) : Prop where
  /-- The offer step is past its send. -/
  past : st = .idle ∨ (s.hub.sender (.handler c)).past ≠ none
  offers : (s.transit c).count .offer ≤ st.offers
  awaiting : (s.page c).awaiting ≤ st.awaiting
  described : (s.page c).described = true → st.isAnswered = true
  up : st.Up ((s.loop c).loc = .reading) (s.up c)

theorem Agrees.new (c : C) : Agrees (new : Signalling C T) c (.idle : Stage K decode) where
  past := .inl rfl
  offers := le_rfl
  awaiting := le_rfl
  described := nofun
  up := rfl

/-- A step of the system is a step of the negotiation, or none. -/
def Moves (offer : Json) (st : Stage K decode) (es : List (Deal K D)) (st' : Stage K decode) :
    Prop :=
  (es = [] ∧ st' = st) ∨ ∃ e, es = [e] ∧ st.Next offer e st'

variable [DecidableEq C] [DecidableEq T] {E : Ends C K D} {s t : Signalling C T} {c : C}
  {h : List (Event C K D)} {offer : Json} {st : Stage K decode}

omit [DecidableEq C] [DecidableEq T] in
/-- A step that moves nothing of the negotiation. -/
theorem Agrees.of_frame (ha : Agrees s c st) (hhub : t.hub = s.hub) (hdown : t.down c = s.down c)
    (hpage : t.page c = s.page c) (hup : t.up c = s.up c) (hloop : t.loop c = s.loop c) :
    Agrees t c st where
  past := hhub ▸ ha.past
  offers := by
    rw [transit, hhub, hdown]
    exact ha.offers
  awaiting := hpage ▸ ha.awaiting
  described := hpage ▸ ha.described
  up := by
    rw [hup, hloop]
    exact ha.up

theorem deals_emit_hub (a : Webrtc.Action C) : deals c (s.emit E (.hub a)) =
    ((taken c (s.hub.emit a)).filter (· = .offer)).map fun _ ↦ .offered := by
  rw [← deals_hub (K := K) (D := D), emit, deals_append]
  refine (congrArg (_ ++ ·) ?_).trans (List.append_nil _)
  cases wrote? a <;> rfl

/-- How many offers are on their way after a step of the hub. -/
theorem count_transit_hub (hi : s.hub.Inv) (a : Webrtc.Action C) (g : s.guard (.hub a)) :
    ((s.effect E (.hub a) g).transit c).count .offer ≤
      (s.transit c).count .offer + (taken c (s.hub.emit a)).count .offer := by
  have hsub := (hi.held_sublist (c := c) g.2.2).count_le .offer
  change ((s.down c ++ a.written c) ++ ((s.hub.effect a g.2.2).writer c).held).count .offer ≤ _
  simp only [transit, List.count_append] at hsub ⊢
  omega

/-- A step of the hub. -/
theorem Agrees.hub (ha : Agrees s c st) (hi : s.hub.Inv)
    (hcast : ∀ m, s.hub.run.casting = some m → ∃ n, m = .info n) (a : Webrtc.Action C)
    (g : s.guard (.hub a)) : ∃ st', Moves offer st (deals c (s.emit E (.hub a))) st' ∧
      Agrees (s.effect E (.hub a) g) c st' := by
  have hcount := count_transit_hub (E := E) (c := c) hi a g
  have hoffers := ha.offers
  rw [deals_emit_hub]
  by_cases hsend : a = .send (.handler c) .offer
  · subst hsend
    obtain ⟨hk, hready⟩ : s.hub.sender (.handler c) = .send .offer ∧ s.hub.SendReady c := g.2.2
    have ho : s.hub.sendClosed c = false :=
      (hi.writer_of_sendReady (.inr ⟨.handler c, .offer, rfl, hk⟩) hready).1
    have hsender : (s.hub.effect (.send (.handler c) .offer) g.2.2).sender (.handler c) =
        .rUnlock .offer := Function.update_self ..
    have htaken : taken c (s.hub.emit (.send (.handler c) .offer)) = [.offer] := by
      simp [Hub.emit, ho, taken, Event.taken?]
    obtain rfl : st = .idle := ha.past.resolve_right fun hp ↦ hp (by rw [hk]; rfl)
    rw [htaken] at hcount ⊢
    refine ⟨.offered, .inr ⟨.offered, rfl, .offered⟩, .inr ?_, hcount.trans ?_, ha.awaiting,
      ha.described, ha.up⟩
    · change ((s.hub.effect (.send (.handler c) .offer) g.2.2).sender (.handler c)).past ≠ none
      rw [hsender]
      exact Option.some_ne_none _
    · exact Nat.add_le_add_right hoffers 1
  · have hno : .offer ∉ taken c (s.hub.emit a) := fun hm ↦
      hsend (hi.handler_of_received g.2.2 hcast (mem_taken.1 hm))
    have hnil : (taken c (s.hub.emit a)).filter (· = .offer) = [] :=
      List.filter_eq_nil_iff.2 fun m hm ↦ by
        rw [decide_eq_true_iff]
        rintro rfl
        exact hno hm
    rw [hnil]
    rw [List.count_eq_zero.2 hno] at hcount
    exact ⟨st, .inl ⟨rfl, rfl⟩, ha.past.imp_right (hi.offer_past_step g.2.2), hcount.trans hoffers,
      ha.awaiting, ha.described, ha.up⟩

omit [DecidableEq C] in
/-- What the page of a viewer has before it after the text of a message. -/
theorem onmessage_awaiting (js : Engine) (t : App T) (p : Payload C) (c : C) (m : Message) :
    (t.onmessage js (m.text p c)).1.awaiting = t.awaiting + [m].count .offer ∧
      (t.onmessage js (m.text p c)).1.described = t.described := by
  rw [App.onmessage_of_parse js t (m.parse_text p c) rfl]
  cases m <;> exact ⟨rfl, rfl⟩

omit [DecidableEq C] in
theorem filterMap_calls (p : Payload C) (c : C) (m : Message) :
    (calls p c m).filterMap (pageDeal? (K := K) (D := D)) =
      if m = .offer then [.described (p.offer c).json] else [] := by
  cases m <;> rfl

/-- The page receives a text. -/
theorem Agrees.deliver (ha : Agrees s c st) (d : C) (m : Message) (g : s.guard (.deliver d m)) :
    ∃ st', Moves (E.payload.offer c).json st (deals c (s.emit E (.deliver d m))) st' ∧
      Agrees (s.effect E (.deliver d m) g) c st' := by
  have hdeals : deals c (s.emit E (.deliver d m)) =
      if d = c then if m = .offer then [.described (E.payload.offer d).json] else [] else [] := by
    rw [emit_deliver_eq, deals_append, deals_map, filterMap_calls]
    rfl
  rw [hdeals]
  by_cases hd : d = c
  · subst hd
    rw [if_pos rfl]
    have hdown : s.down d = m :: (s.down d).tail := (List.cons_head?_tail g).symm
    have hcount : (s.transit d).count .offer =
        ((s.effect E (.deliver d m) g).transit d).count .offer + [m].count .offer := by
      have htail : (s.effect E (.deliver d m) g).down d = (s.down d).tail := Function.update_self ..
      rw [transit, hdown, transit, htail, List.cons_append, ← List.singleton_append,
        List.count_append, Nat.add_comm]
      rfl
    obtain ⟨hawaiting, hdescribed⟩ := onmessage_awaiting E.engine (s.page d) E.payload d m
    have hpage : (s.effect E (.deliver d m) g).page d =
        ((s.page d).onmessage E.engine (m.text E.payload d)).1 := stepPage_page ..
    have hup : (s.effect E (.deliver d m) g).up d = s.up d := up_deliver d m g
    have hoffers := ha.offers
    rw [hcount] at hoffers
    by_cases hm : m = .offer
    · subst hm
      rw [if_pos rfl]
      -- only an offer that is on its way can be received
      cases st with
      | offered =>
          refine ⟨.described, .inr ⟨_, rfl, .described⟩, ha.past.resolve_left nofun |> .inr, ?_, ?_,
            ?_, ?_⟩
          · exact Nat.le_of_add_le_add_right hoffers
          · rw [hpage, hawaiting]
            exact Nat.add_le_add_right ha.awaiting 1
          · rw [hpage, hdescribed]
            exact ha.described
          · rw [hup]
            exact ha.up
      | idle | described | answered answer | accepted answer description h candidates =>
          exact absurd hoffers (by simp [Stage.offers])
    · rw [if_neg hm]
      have hzero : [m].count .offer = 0 := List.count_eq_zero.2 fun hmem ↦
        hm (List.mem_singleton.1 hmem).symm
      rw [hzero] at hoffers hawaiting
      refine ⟨st, .inl ⟨rfl, rfl⟩, ha.past, hoffers, ?_, ?_, ?_⟩
      · rw [hpage, hawaiting]
        exact ha.awaiting
      · rw [hpage, hdescribed]
        exact ha.described
      · rw [hup]
        exact ha.up
  · rw [if_neg hd]
    refine ⟨st, .inl ⟨rfl, rfl⟩, ha.of_frame rfl ?_ ?_ ?_ rfl⟩
    · exact Function.update_of_ne (Ne.symm hd) ..
    · exact stepPage_page_ne _ _ _ hd
    · exact stepPage_up_ne _ _ _ hd

/-- The page of the viewer does something by itself. -/
theorem Agrees.page (ha : Agrees s c st) (a : App.Action T) (g : s.guard (.page c a)) :
    ∃ st', Moves offer st (((s.page c).emit E.engine a).filterMap pageDeal?) st' ∧
      Agrees (s.effect E (.page c a) g) c st' := by
  have hpage : (s.effect E (.page c a) g).page c = (s.page c).effect E.engine a := stepPage_page ..
  have hup : (s.effect E (.page c a) g).up c =
      s.up c ++ ((s.page c).emit E.engine a).filterMap App.Event.sent? := stepPage_up ..
  have hawaiting := ha.awaiting
  -- a page that waits for an answer is at the stage `described`
  have hwaits : 0 < (s.page c).awaiting → st = .described := by
    intro hpos
    cases st with
    | described => rfl
    | idle | offered | answered answer | accepted answer description h candidates =>
        exact absurd hawaiting (Nat.not_le.2 hpos)
  cases a with
  | message text => cases g.1
  | answer answer =>
      obtain rfl := hwaits g.2
      refine ⟨.answered answer, .inr ⟨_, rfl, .answered answer⟩, .inr (ha.past.resolve_left nofun),
        ha.offers, ?_, fun _ ↦ rfl, fun _ ↦ ⟨[], ?_, nofun⟩⟩
      · rw [hpage]
        exact Nat.sub_le_of_le_add hawaiting
      · rw [hup, show s.up c = [] from ha.up]
        rfl
  | answerError =>
      refine ⟨st, .inl ⟨rfl, rfl⟩, ha.past, ha.offers, ?_, ?_, ?_⟩
      · rw [hpage]
        exact (Nat.sub_le _ _).trans hawaiting
      · rw [hpage]
        exact ha.described
      · rw [hup]
        exact (List.append_nil _).symm ▸ ha.up
  | track track =>
      refine ⟨st, .inl ⟨rfl, rfl⟩, ha.past, ha.offers, ?_, ?_, ?_⟩
      · rw [hpage]
        exact hawaiting
      · rw [hpage]
        exact ha.described
      · rw [hup]
        exact (List.append_nil _).symm ▸ ha.up
  | icecandidate candidate =>
      refine ⟨st, .inl ⟨by cases candidate <;> rfl, rfl⟩, ha.past, ha.offers, ?_, ?_, ?_⟩
      · rw [hpage]
        exact hawaiting
      · rw [hpage]
        exact ha.described
      · rw [hup]
        have hnew : Stage.Candidates
            (((s.page c).emit E.engine (.icecandidate candidate)).filterMap App.Event.sent?) := by
          cases candidate <;> simp [Stage.Candidates, App.emit, App.Event.sent?,
            messageTypeCandidate]
        have hanswered := ha.described g.2
        have hold := ha.up
        cases st with
        | idle | offered | described => cases hanswered
        | answered answer =>
            intro hreading
            obtain ⟨xs, hxs, hc⟩ := hold hreading
            refine ⟨xs ++ _, by rw [hxs, List.cons_append], ?_⟩
            exact List.forall_mem_append.2 ⟨hc, hnew⟩
        | accepted answer description h candidates =>
            exact List.forall_mem_append.2 ⟨hold, hnew⟩

omit [DecidableEq T] in
/-- Reading leaves the page, and what is on its way to it, as they are. -/
theorem Agrees.stepLoop {p : Pion K D} {st st' : Stage K decode} {ok : Bool} {m : WebsocketMessage}
    {x : String × Json.Object} {xs : List (String × Json.Object)} (ha : Agrees s c st)
    (hidle : st ≠ .idle) (hoffers : st.offers ≤ st'.offers) (hawaiting : st.awaiting ≤ st'.awaiting)
    (hanswered : st.isAnswered = true → st'.isAnswered = true) (hup : s.up c = x :: xs)
    (hm : (s.loop c).message = some m)
    (hnext : st'.Up ((p.dispatch ⟨x.1, some x.2.json⟩).next ok = .reading) xs) :
    Agrees (s.stepLoop p c ok x) c st' where
  past := .inr (ha.past.resolve_left hidle)
  offers := ha.offers.trans hoffers
  awaiting := ha.awaiting.trans hawaiting
  described hd := hanswered (ha.described hd)
  up := by
    rw [stepLoop_up, stepLoop_loop, hup]
    change st'.Up ((p.react (s.loop c).message (Json.parse (text x))).next ok = .reading) xs
    rw [hm, react_text]
    exact hnext

/-- `ReadLoop` reads a text of the viewer. -/
theorem Agrees.read {st : Stage K E.pion.answer} (ha : Agrees s c st) (ok : Bool)
    (hloop : (s.loop c).loc = .reading → ∃ m, (s.loop c).message = some m)
    (g : s.guard (.read c ok)) : ∃ st', Moves offer st (deals c (s.emit E (.read c ok))) st' ∧
      Agrees (s.effect E (.read c ok) g) c st' := by
  obtain ⟨x, xs, hup, heffect, hemit⟩ := read_cases (E := E) g
  obtain ⟨m, hm⟩ := hloop g.2.2.1
  rw [hm, react_text] at hemit
  have hdeals : deals c (s.emit E (.read c ok)) =
      (serverDeal? (E.pion.dispatch ⟨x.1, some x.2.json⟩)).toList := by
    rw [hemit]
    refine (List.filterMap_cons_none rfl).trans ?_
    cases hr : serverDeal? (E.pion.dispatch ⟨x.1, some x.2.json⟩) with
    | none => exact List.filterMap_cons_none ((if_pos rfl).trans hr)
    | some e => exact List.filterMap_cons_some ((if_pos rfl).trans hr)
  have hold := ha.up
  rw [hup] at hold
  rw [hdeals, heffect]
  cases st with
  | idle | offered | described => cases hold
  | answered answer =>
      obtain ⟨ys, heq, hc⟩ := hold g.2.2.1
      cases heq
      have hdispatch : E.pion.dispatch ⟨messageTypeAnswer, some answer.json⟩ = _ :=
        Pion.dispatch_answer
      cases hans : E.pion.answer answer.json with
      | none =>
          rw [Option.bind_some, hans] at hdispatch
          rw [hdispatch]
          refine ⟨_, .inl ⟨rfl, rfl⟩, ha.stepLoop nofun le_rfl le_rfl id hup hm fun hnext ↦ ?_⟩
          rw [hdispatch] at hnext
          cases hnext
      | some description =>
          rw [Option.bind_some, hans] at hdispatch
          rw [hdispatch]
          exact ⟨.accepted answer description hans [],
            .inr ⟨_, rfl, .accepted answer description hans⟩,
            ha.stepLoop nofun le_rfl le_rfl id hup hm hc⟩
  | accepted answer description hans candidates =>
      obtain ⟨hx, hc⟩ := List.forall_mem_cons.1 hold
      obtain ⟨event, data⟩ := x
      obtain rfl : event = messageTypeCandidate := hx
      have hdispatch : E.pion.dispatch ⟨messageTypeCandidate, some data.json⟩ = _ :=
        Pion.dispatch_candidate
      rw [hdispatch, Option.bind_some]
      cases hcand : E.pion.candidate data.json with
      | none => exact ⟨_, .inl ⟨rfl, rfl⟩, ha.stepLoop nofun le_rfl le_rfl id hup hm hc⟩
      | some candidate =>
          exact ⟨.accepted answer description hans (candidates ++ [candidate]),
            .inr ⟨_, rfl, .candidate answer description hans candidates candidate⟩,
            ha.stepLoop nofun le_rfl le_rfl id hup hm hc⟩

/-- The step lemma. -/
theorem Agrees.step {st : Stage K E.pion.answer} (ha : Agrees s c st) (hi : s.hub.Inv)
    (hcast : ∀ m, s.hub.run.casting = some m → ∃ n, m = .info n)
    (hloop : (s.loop c).loc = .reading → ∃ m, (s.loop c).message = some m) (a : Action C T)
    (g : s.guard a) : ∃ st', Moves (E.payload.offer c).json st (deals c (s.emit E a)) st' ∧
      Agrees (s.effect E a g) c st' := by
  cases a with
  | hub a => exact ha.hub hi hcast a g
  | deliver d m => exact ha.deliver d m g
  | page d a =>
      have hdeals : deals c (s.emit E (.page d a)) = _ := deals_map c d _
      rw [hdeals]
      by_cases hd : d = c
      · subst hd
        rw [if_pos rfl]
        exact ha.page a g
      · rw [if_neg hd]
        exact ⟨st, .inl ⟨rfl, rfl⟩, ha.of_frame rfl rfl (stepPage_page_ne _ _ _ hd)
          (stepPage_up_ne _ _ _ hd) rfl⟩
  | read d ok =>
      by_cases hd : d = c
      · subst hd
        exact ha.read ok hloop g
      · obtain ⟨x, xs, -, heffect, hemit⟩ := read_cases (E := E) g
        have hdeals : deals c (s.emit E (.read d ok)) = [] := by
          rw [hemit]
          exact (List.filterMap_cons_none rfl).trans (List.filterMap_cons_none (if_neg hd))
        rw [heffect, hdeals]
        exact ⟨st, .inl ⟨rfl, rfl⟩, ha.of_frame rfl rfl rfl (Function.update_of_ne (Ne.symm hd) ..)
          (Function.update_of_ne (Ne.symm hd) ..)⟩

/-- The run lemma. -/
theorem agrees_of_reach {ok : Signalling C T → Action C T → Prop}
    (hr : (signalling T E).Reach ok h s) (c : C) :
    ∃ st : Stage K E.pion.answer,
      deals c h = st.trail (E.payload.offer c).json ∧ Agrees s c st := by
  refine hr.invariant_of
    (I := fun h s ↦ ∃ st : Stage K E.pion.answer,
      deals c h = st.trail (E.payload.offer c).json ∧ Agrees s c st)
    (fun h s hr ↦ And.intro (hub_of_reach_free hr) (serves_of_reach hr c)) ?_ ?_
  · rintro _ rfl
    exact ⟨.idle, rfl, .new c⟩
  · rintro h s a g ⟨hhub, hs⟩ - ⟨st, htrail, ha⟩ -
    obtain ⟨st', hmoves, ha'⟩ :=
      ha.step (inv_of_reach hhub) (info_of_casting hhub) hs.message a g
    refine ⟨st', ?_, ha'⟩
    have hdeals : deals c (h ++ s.emit E a) = _ := deals_append c h _
    refine hdeals.trans ?_
    rcases hmoves with ⟨hnil, rfl⟩ | ⟨e, hone, hnext⟩
    · rw [hnil, List.append_nil, htrail]
    · rw [hone, htrail, hnext.trail]

/-- **Negotiations are in order.**  In every run, and for every viewer with a page that has had no
websocket before, the steps of the negotiation are those up to some stage: an offer is handed over
at most once; the page sets no remote description but this offer, at most once and after that; it
answers at most once, after that; the server sets no remote description but what this answer decodes
to, at most once and after that; and it adds candidates of the page only afterwards. -/
theorem negotiation_in_order (hr : (signalling T E).Reach (signalling T E).free h s) (c : C) :
    ∃ st : Stage K E.pion.answer, deals c h = st.trail (E.payload.offer c).json :=
  let ⟨st, htrail, _⟩ := agrees_of_reach hr c
  ⟨st, htrail⟩

/-- A viewer answers and reports a candidate, and the server takes both. -/
theorem negotiation_in_order_answer :
    ∃ h s, (signalling ℕ ends).Reach (signalling ℕ ends).free h s ∧
      ∃ answer description hans candidate, deals 0 h =
        (Stage.accepted answer description hans [candidate] : Stage String ends.pion.answer).trail
          (ends.payload.offer 0).json := by
  obtain ⟨h, s, hr, hlen⟩ := (signalling ℕ ends).exists_of_exec (signalling ℕ ends).free
    (fun h _ ↦ (deals 0 h).length = 5) rfl
    (offered ++ [Action.page 0 (.answer ⟨[("type", .str "answer"), ("sdp", .str "v=0")], rfl⟩),
      .page 0 (.icecandidate (some ⟨[("candidate", .str "c")], rfl⟩)), .read 0 true,
      .read 0 true])
    (by decide +kernel)
  obtain ⟨st, hst⟩ := negotiation_in_order hr 0
  rw [hst] at hlen
  cases st with
  | idle | offered | described | answered answer => cases hlen
  | accepted answer description hans candidates =>
      obtain ⟨candidate, rfl⟩ : ∃ k, candidates = [k] := by
        simpa [Stage.trail, List.length_eq_one_iff] using hlen
      exact ⟨h, s, hr, answer, description, hans, candidate, hst⟩

end Signalling

end ITG.System
