import ITG.Webrtc.Server.Defs

/-!
# The registry of streams

A stream is in one of three places: in the hand of one call, which is making it or tearing it
down; in `Server.streams`; or done with, its socket closed and its hub too.  `Inv` says this, and
that the entries of the map are streams with open sockets.  Since no two open sockets share a port,
an insert never meets an entry of the same port, so no stream is lost by being overwritten.

All of it needs that reads on open sockets do not fail.  A reader whose `ReadFrom` fails closes
its socket and leaves the stream in the map with its hub running; `stale_stream` is such a run.
-/

universe u

namespace ITG.Webrtc

open ITG.Lib

/-- How far a stream in the hand of a call has got. -/
inductive Stage where
  /-- A socket without a stream. -/
  | listening
  /-- Made and not yet in the map, or taken out of it. -/
  | unlisted
  /-- The socket is closed, the hub is not. -/
  | closed
deriving DecidableEq

/-- Whether the socket is open, the stream made and the hub closed. -/
def Stage.flags : Stage → Bool × Bool × Bool
  | .listening => (true, false, false)
  | .unlisted => (true, true, false)
  | .closed => (false, true, false)

/-- The stream that a call has in hand. -/
def CallAt.hand : CallAt → Option (ℕ × Stage)
  | .tracks i | .listenerClose i => some (i, .listening)
  | .createLock i | .insert i | .deleteUnlock (some i) | .connClose i => some (i, .unlisted)
  | .hubClose i | .doneClose i => some (i, .closed)
  | _ => none

/-- The stream that a call of `createStream` is at work on. -/
def CallAt.creating : CallAt → Option ℕ
  | .tracks i | .listenerClose i | .createLock i | .insert i | .createUnlock i | .start i => some i
  | _ => none

@[simp] theorem hand_streamHandler (r : Request) : (streamHandler r).hand = none :=
  apply_streamHandler r (fun _ ↦ rfl) (fun _ ↦ rfl) fun _ ↦ rfl

@[simp] theorem creating_streamHandler (r : Request) : (streamHandler r).creating = none :=
  apply_streamHandler r (fun _ ↦ rfl) (fun _ ↦ rfl) fun _ ↦ rfl

@[simp] theorem locked_streamHandler (r : Request) : (streamHandler r).locked = false :=
  apply_streamHandler r (fun _ ↦ rfl) (fun _ ↦ rfl) fun _ ↦ rfl

/-- A call that has a stream in hand is under way. -/
theorem CallAt.hand_of_not_inProgress {p : CallAt} (h : p.inProgress = false) : p.hand = none := by
  cases p <;> first | rfl | cases h

namespace Server

variable {K : Type u}

/-- The flags of a socket and its stream. -/
def flags (s : Server K) (i : ℕ) : Bool × Bool × Bool := (s.isOpen i, s.made i, s.hubDone i)

/-- The stream is done with. -/
def Over (s : Server K) (i : ℕ) : Prop :=
  s.isOpen i = false ∧ (s.made i = true → s.hubDone i = true)

variable {s t : Server K} {k : Caller K} {i : ℕ}

theorem isOpen_of_flags (h : t.flags i = s.flags i) : t.isOpen i = s.isOpen i := congrArg Prod.fst h

theorem over_of_flags (h : t.flags i = s.flags i) : t.Over i ↔ s.Over i := by
  have hmade : t.made i = s.made i := congrArg (·.2.1) h
  have hdone : t.hubDone i = s.hubDone i := congrArg (·.2.2) h
  rw [Over, Over, isOpen_of_flags h, hmade, hdone]

/-- The map, the sockets and the hubs agree. -/
structure Consistent (s : Server K) : Prop where
  port : ∀ p i, s.streams p = some i → s.made i = true ∧ s.port i = p
  /-- The streams in the map are those whose socket is open. -/
  isOpen : ∀ i, s.made i = true → ((∃ p, s.streams p = some i) ↔ s.isOpen i = true)
  /-- A stream that is not in the map has had its hub closed. -/
  hubDone : ∀ i, s.made i = true → (∀ p, s.streams p ≠ some i) → s.hubDone i = true

/-! ## The places of a stream -/

/-- Where the streams are. -/
structure Places (s : Server K) : Prop where
  hand : ∀ k i st, (s.call k).hand = some (i, st) →
    i < s.opened ∧ s.flags i = st.flags ∧ ∀ p, s.streams p ≠ some i
  /-- No stream is in two hands. -/
  alone : ∀ k k' i st st', (s.call k).hand = some (i, st) → (s.call k').hand = some (i, st') →
    k = k'
  listed : ∀ p i, s.streams p = some i →
    i < s.opened ∧ s.port i = p ∧ s.flags i = Stage.flags .unlisted
  /-- Every stream is in one of the three places. -/
  settled : ∀ i < s.opened, (∃ k st, (s.call k).hand = some (i, st)) ∨
    s.streams (s.port i) = some i ∨ s.Over i
  /-- No two open sockets share a port. -/
  ports : ∀ i j, i < s.opened → j < s.opened → s.isOpen i = true → s.isOpen j = true →
    s.port i = s.port j → i = j

/-- A step that leaves the places alone: nobody's hand, the map and the flags do not change. -/
theorem Places.of_same (h : Places s) (hhand : ∀ k, (t.call k).hand = (s.call k).hand)
    (hs : t.streams = s.streams) (ho : t.opened = s.opened) (hp : t.port = s.port)
    (hf : ∀ i, t.flags i = s.flags i) : Places t where
  hand k i st hk := by
    rw [hhand] at hk
    rw [ho, hf, hs]
    exact h.hand k i st hk
  alone k k' i st st' hk hk' := by
    rw [hhand] at hk hk'
    exact h.alone k k' i st st' hk hk'
  listed p i hi := by
    rw [hs] at hi
    rw [ho, hp, hf]
    exact h.listed p i hi
  settled i hi := by
    rw [ho] at hi
    simp only [hs, hp, over_of_flags (hf i), hhand]
    exact h.settled i hi
  ports i j hi hj hio hjo := by
    rw [ho] at hi hj
    rw [isOpen_of_flags (hf i)] at hio
    rw [isOpen_of_flags (hf j)] at hjo
    rw [hp]
    exact h.ports i j hi hj hio hjo

variable [DecidableEq K]

/-- A step of one caller that concerns one stream, which no other caller has in hand: every other
stream stays where it is. -/
theorem Places.of_touch (h : Places s) (k : Caller K) (p : CallAt) {i : ℕ} (hi : i < s.opened)
    (hcall : t.call = Function.update s.call k p) (ho : t.opened = s.opened)
    (hport : t.port = s.port) (hf : ∀ j, j ≠ i → t.flags j = s.flags j)
    (hs : ∀ q j, j ≠ i → (t.streams q = some j ↔ s.streams q = some j))
    (hopen : t.isOpen i = true → s.isOpen i = true)
    (hbefore : ∀ j st, (s.call k).hand = some (j, st) → j = i)
    (hothers : ∀ k' st, (s.call k').hand = some (i, st) → k' = k)
    (hhand : ∀ j st, p.hand = some (j, st) →
      j = i ∧ t.flags i = st.flags ∧ ∀ q, t.streams q ≠ some i)
    (hlisted : ∀ q, t.streams q = some i → s.port i = q ∧ t.flags i = Stage.flags .unlisted)
    (hsettled : (∃ st, p.hand = some (i, st)) ∨ t.streams (s.port i) = some i ∨ t.Over i) :
    Places t := by
  have hself : t.call k = p := by rw [hcall, Function.update_self]
  have hother : ∀ k', k' ≠ k → t.call k' = s.call k' := fun k' hk ↦ by
    rw [hcall, Function.update_of_ne hk]
  have hisOpen : ∀ j, t.isOpen j = true → s.isOpen j = true := fun j hj ↦ by
    by_cases hji : j = i
    · exact hji ▸ hopen (hji ▸ hj)
    · rwa [isOpen_of_flags (hf j hji)] at hj
  -- what another caller has in hand is not the stream of this step
  have hne : ∀ k' j st, k' ≠ k → (s.call k').hand = some (j, st) → j ≠ i := by
    rintro k' j st hk hj rfl
    exact hk (hothers k' st hj)
  constructor
  case hand =>
    intro k' j st hk'
    by_cases hk : k' = k
    · subst hk
      rw [hself] at hk'
      obtain ⟨rfl, hfl, hun⟩ := hhand j st hk'
      exact ⟨ho ▸ hi, hfl, hun⟩
    · rw [hother k' hk] at hk'
      have hji := hne k' j st hk hk'
      obtain ⟨hlt, hfl, hun⟩ := h.hand k' j st hk'
      exact ⟨ho ▸ hlt, (hf j hji).trans hfl, fun q hq ↦ hun q ((hs q j hji).1 hq)⟩
  case alone =>
    intro k' k'' j st st' hk' hk''
    by_cases hk : k' = k <;> by_cases hk2 : k'' = k
    · rw [hk, hk2]
    · subst hk
      rw [hself] at hk'
      rw [hother k'' hk2] at hk''
      exact absurd (hhand j st hk').1 (hne k'' j st' hk2 hk'')
    · subst hk2
      rw [hself] at hk''
      rw [hother k' hk] at hk'
      exact absurd (hhand j st' hk'').1 (hne k' j st hk hk')
    · rw [hother k' hk] at hk'
      rw [hother k'' hk2] at hk''
      exact h.alone k' k'' j st st' hk' hk''
  case listed =>
    intro q j hq
    rw [ho, hport]
    by_cases hji : j = i
    · subst hji
      exact ⟨hi, hlisted q hq⟩
    · rw [hf j hji]
      exact h.listed q j ((hs q j hji).1 hq)
  case settled =>
    intro j hj
    rw [hport]
    by_cases hji : j = i
    · subst hji
      rcases hsettled with ⟨st, hst⟩ | hst
      · exact .inl ⟨k, st, hself ▸ hst⟩
      · exact .inr hst
    · rw [over_of_flags (hf j hji), hs _ j hji]
      rcases h.settled j (ho ▸ hj) with ⟨k', st, hst⟩ | hst
      · have hk : k' ≠ k := by
          rintro rfl
          exact hji (hbefore j st hst)
        exact .inl ⟨k', st, (hother k' hk).symm ▸ hst⟩
      · exact .inr hst
  case ports =>
    intro j j' hj hj' hjo hjo' he
    rw [hport] at he
    exact h.ports j j' (ho ▸ hj) (ho ▸ hj') (hisOpen j hjo) (hisOpen j' hjo') he

/-- A new socket. -/
theorem Places.listen (h : Places s) {port p : ℤ} (g : s.guard (.listen k port p))
    (hfresh : s.made s.opened = false ∧ s.hubDone s.opened = false) :
    Places (s.effect (.listen k port p) g) := by
  set t := s.effect (.listen k port p) g with ht
  have hcall : t.call = Function.update s.call k (.tracks s.opened) := rfl
  have hself : t.call k = .tracks s.opened := by rw [hcall, Function.update_self]
  have hother : ∀ k', k' ≠ k → t.call k' = s.call k' := fun k' hk ↦ by
    rw [hcall, Function.update_of_ne hk]
  have hnew : t.flags s.opened = Stage.flags .listening := by
    simp [ht, flags, effect, hfresh, Stage.flags]
  have hflags : ∀ j < s.opened, t.flags j = s.flags j := fun j hj ↦ by
    simp [ht, flags, effect, Nat.ne_of_lt hj]
  have hport : ∀ j < s.opened, t.port j = s.port j := fun j hj ↦ by
    simp [ht, effect, Nat.ne_of_lt hj]
  have hstreams : t.streams = s.streams := rfl
  have hsucc : ∀ j, j < t.opened ↔ j < s.opened ∨ j = s.opened := fun j ↦ Nat.lt_succ_iff_lt_or_eq
  have hlt : ∀ k' j st, k' ≠ k → (t.call k').hand = some (j, st) → j < s.opened :=
    fun k' j st hk hst ↦ (h.hand k' j st (hother k' hk ▸ hst)).1
  have hmine : ∀ j st, (t.call k).hand = some (j, st) → j = s.opened ∧ st = .listening :=
    fun j st hst ↦ by
      rw [hself] at hst
      cases hst
      exact ⟨rfl, rfl⟩
  -- the port of the new socket is that of no open one
  have hfree : ∀ j < s.opened, t.isOpen j = true → t.port j ≠ t.port s.opened := fun j hj ho ↦ by
    rw [isOpen_of_flags (hflags j hj)] at ho
    rw [hport j hj]
    simpa [ht, effect] using g.2.2 j hj ho
  constructor
  case hand =>
    intro k' j st hk'
    by_cases hk : k' = k
    · subst hk
      obtain ⟨rfl, rfl⟩ := hmine j st hk'
      exact ⟨(hsucc _).2 (.inr rfl), hnew, fun q hq ↦ absurd (h.listed q _ hq).1 (Nat.lt_irrefl _)⟩
    · have hj := hlt k' j st hk hk'
      rw [hother k' hk] at hk'
      obtain ⟨-, hfl, hun⟩ := h.hand k' j st hk'
      exact ⟨(hsucc j).2 (.inl hj), (hflags j hj).trans hfl, hun⟩
  case alone =>
    intro k' k'' j st st' hk' hk''
    by_cases hk : k' = k <;> by_cases hk2 : k'' = k
    · rw [hk, hk2]
    · subst hk
      exact absurd (hmine j st hk').1 (Nat.ne_of_lt (hlt k'' j st' hk2 hk''))
    · subst hk2
      exact absurd (hmine j st' hk'').1 (Nat.ne_of_lt (hlt k' j st hk hk'))
    · rw [hother k' hk] at hk'
      rw [hother k'' hk2] at hk''
      exact h.alone k' k'' j st st' hk' hk''
  case listed =>
    intro q j hq
    obtain ⟨hj, hp, hfl⟩ := h.listed q j hq
    exact ⟨(hsucc j).2 (.inl hj), (hport j hj).trans hp, (hflags j hj).trans hfl⟩
  case settled =>
    intro j hj
    rcases (hsucc j).1 hj with hj | rfl
    · rw [hport j hj, hstreams, over_of_flags (hflags j hj)]
      rcases h.settled j hj with ⟨k', st, hst⟩ | hst
      · have hk : k' ≠ k := by
          rintro rfl
          rw [g.1] at hst
          cases hst
        exact .inl ⟨k', st, (hother k' hk).symm ▸ hst⟩
      · exact .inr hst
    · exact .inl ⟨k, .listening, by rw [hself]; rfl⟩
  case ports =>
    intro j j' hj hj' hjo hjo' he
    rcases (hsucc j).1 hj with hj | rfl <;> rcases (hsucc j').1 hj' with hj' | rfl
    · rw [isOpen_of_flags (hflags j hj)] at hjo
      rw [isOpen_of_flags (hflags j' hj')] at hjo'
      rw [hport j hj, hport j' hj'] at he
      exact h.ports j j' hj hj' hjo hjo' he
    · exact absurd he (hfree j hj hjo)
    · exact absurd he.symm (hfree j' hj' hjo')
    · rfl

/-! ## The lock -/

/-- The caller inside a critical section is the holder of `mu`. -/
def Locked (s : Server K) : Prop := ∀ k, (s.call k).locked = true ↔ s.mu = some k

omit [DecidableEq K] in
theorem Locked.unique (h : Locked s) {k' : Caller K} (hk : (s.call k).locked = true)
    (hk' : (s.call k').locked = true) : k = k' :=
  Option.some.inj (((h k).1 hk).symm.trans ((h k').1 hk'))

/-- A step within or outside the critical sections. -/
theorem Locked.of_moves {a : Action K} (h : Locked s) (g : s.guard a)
    (hmu : (s.effect a g).mu = s.mu) (hmove : ∀ {k p q}, s.Moves a k p q → q.locked = p.locked) :
    Locked (s.effect a g) := by
  intro k
  rw [hmu]
  rcases call_step (k := k) g with hk | hm
  · rw [hk]
    exact h k
  · rw [hmove hm]
    exact h k

theorem Locked.acquire (h : Locked s) (k : Caller K) (p : CallAt) (hfree : s.mu = none)
    (hcall : t.call = Function.update s.call k p) (hmu : t.mu = some k) (hp : p.locked = true) :
    Locked t := by
  intro k'
  rw [hcall, hmu]
  by_cases hk : k' = k
  · subst hk
    simp [hp]
  · have hno := h k'
    rw [hfree] at hno
    rw [Function.update_of_ne hk]
    simpa [Ne.symm hk] using hno

theorem Locked.release (h : Locked s) (k : Caller K) (p : CallAt) (hk : (s.call k).locked = true)
    (hcall : t.call = Function.update s.call k p) (hmu : t.mu = none) (hp : p.locked = false) :
    Locked t := by
  intro k'
  rw [hcall, hmu]
  by_cases hk' : k' = k
  · subst hk'
    simp [hp]
  · have hno : (s.call k').locked ≠ true := fun hl ↦ hk' (h.unique hl hk)
    rw [Function.update_of_ne hk']
    simpa using hno

/-! ## Every step keeps the places -/

/-- What the registry keeps while reads on open sockets succeed. -/
structure Inv (s : Server K) : Prop where
  places : Places s
  locked : Locked s
  /-- `deleteStream` holds the lock between its look-up and its `delete`. -/
  found : ∀ k port i, s.call k = .delete port i → s.streams port = some i
  creating : ∀ k i, (s.call k).creating = some i → i < s.opened
  fresh : ∀ i, s.opened ≤ i → s.made i = false ∧ s.hubDone i = false ∧ s.reader i = .idle
  /-- A reader that has failed finds its socket closed. -/
  closing : ∀ i, s.reader i = .closing → s.isOpen i = false
  panicked : s.panicked = false

/-- A caller moves and has in hand what it had. -/
theorem Places.of_move (h : Places s) (k : Caller K) (p : CallAt)
    (hcall : t.call = Function.update s.call k p) (hp : p.hand = (s.call k).hand)
    (hs : t.streams = s.streams) (ho : t.opened = s.opened) (hport : t.port = s.port)
    (hf : ∀ i, t.flags i = s.flags i) : Places t := by
  refine h.of_same (fun k' ↦ ?_) hs ho hport hf
  rw [hcall]
  by_cases hk : k' = k
  · rw [hk, Function.update_self, hp]
  · rw [Function.update_of_ne hk]

/-- A step of a caller on the stream that it has in hand. -/
theorem Places.of_hand (h : Places s) (k : Caller K) (p : CallAt) {st : Stage}
    (hst : (s.call k).hand = some (i, st)) (hcall : t.call = Function.update s.call k p)
    (ho : t.opened = s.opened) (hport : t.port = s.port)
    (hf : ∀ j, j ≠ i → t.flags j = s.flags j)
    (hs : ∀ q j, j ≠ i → (t.streams q = some j ↔ s.streams q = some j))
    (hopen : t.isOpen i = true → s.isOpen i = true)
    (hhand : ∀ j st, p.hand = some (j, st) →
      j = i ∧ t.flags i = st.flags ∧ ∀ q, t.streams q ≠ some i)
    (hlisted : ∀ q, t.streams q = some i → s.port i = q ∧ t.flags i = Stage.flags .unlisted)
    (hsettled : (∃ st, p.hand = some (i, st)) ∨ t.streams (s.port i) = some i ∨ t.Over i) :
    Places t := by
  refine h.of_touch k p (h.hand k i st hst).1 hcall ho hport hf hs hopen (fun j st' hj ↦ ?_)
    (fun k' st' hk' ↦ h.alone k' k i st' st hk' hst) hhand hlisted hsettled
  rw [hst] at hj
  cases hj
  rfl

/-- A step that takes the stream in hand to its next stage. -/
theorem Places.of_stage (h : Places s) (k : Caller K) (p : CallAt) {st st' : Stage}
    (hst : (s.call k).hand = some (i, st)) (hcall : t.call = Function.update s.call k p)
    (hp : p.hand = some (i, st')) (ho : t.opened = s.opened) (hport : t.port = s.port)
    (hs : t.streams = s.streams) (hf : ∀ j, j ≠ i → t.flags j = s.flags j)
    (hfi : t.flags i = st'.flags) (hopen : t.isOpen i = true → s.isOpen i = true) : Places t := by
  have hun := (h.hand k i st hst).2.2
  refine h.of_hand k p hst hcall ho hport hf (fun q j _ ↦ by rw [hs]) hopen (fun j st'' hj ↦ ?_)
    (fun q hq ↦ absurd (hs ▸ hq) (hun q)) (.inl ⟨st', hp⟩)
  rw [hp] at hj
  cases hj
  exact ⟨rfl, hfi, fun q hq ↦ hun q (hs ▸ hq)⟩

/-- A step that is done with the stream in hand. -/
theorem Places.of_over (h : Places s) (k : Caller K) (p : CallAt) {st : Stage}
    (hst : (s.call k).hand = some (i, st)) (hcall : t.call = Function.update s.call k p)
    (hp : p.hand = none) (ho : t.opened = s.opened) (hport : t.port = s.port)
    (hs : t.streams = s.streams) (hf : ∀ j, j ≠ i → t.flags j = s.flags j) (hover : t.Over i) :
    Places t := by
  have hun := (h.hand k i st hst).2.2
  refine h.of_hand k p hst hcall ho hport hf (fun q j _ ↦ by rw [hs]) (fun hi ↦ ?_)
    (fun j st'' hj ↦ ?_) (fun q hq ↦ absurd (hs ▸ hq) (hun q)) (.inr (.inr hover))
  · rw [hover.1] at hi
    cases hi
  · rw [hp] at hj
    cases hj

/-- A new stream gets its key: no entry is overwritten, since an entry of the same port would have
an open socket on it. -/
theorem Places.insert (h : Places s) (g : s.guard (.insert k i)) :
    Places (s.effect (.insert k i) g) ∧ s.streams (s.port i) = none := by
  have hk : s.call k = .insert i := g
  have hst : (s.call k).hand = some (i, .unlisted) := by rw [hk]; rfl
  obtain ⟨hi, hfl, hun⟩ := h.hand k i _ hst
  have hopen : s.isOpen i = true := congrArg Prod.fst hfl
  have hnone : s.streams (s.port i) = none := by
    apply Option.eq_none_iff_forall_ne_some.2
    intro j hj
    obtain ⟨hlt, hp, hflj⟩ := h.listed _ j hj
    obtain rfl := h.ports j i hlt hi (congrArg Prod.fst hflj) hopen hp
    exact hun _ hj
  refine ⟨?_, hnone⟩
  refine h.of_hand k (.createUnlock i) hst rfl rfl rfl (fun _ _ ↦ rfl) (fun q j hj ↦ ?_) id nofun
    (fun q hq ↦ ?_) (.inr (.inl ?_))
  · by_cases hq : q = s.port i
    · subst hq
      simp [effect, hnone, Ne.symm hj]
    · simp [effect, hq]
  · by_cases hqp : q = s.port i
    · exact ⟨hqp.symm, hfl⟩
    · refine absurd ?_ (hun q)
      simpa [effect, hqp] using hq
  · simp [effect]

/-- A stream is taken out of the map. -/
theorem Places.delete (h : Places s) {port : ℤ} (g : s.guard (.delete k port i))
    (hfound : s.streams port = some i) : Places (s.effect (.delete k port i) g) := by
  have hk : s.call k = .delete port i := g
  obtain ⟨hi, hp, hfl⟩ := h.listed port i hfound
  have honly : ∀ q, s.streams q = some i → q = port := fun q hq ↦
    ((h.listed q i hq).2.1.symm.trans hp)
  have hun : ∀ q, (s.effect (.delete k port i) g).streams q ≠ some i := fun q hq ↦ by
    by_cases hqp : q = port
    · subst hqp
      simp [effect] at hq
    · exact hqp (honly q (by simpa [effect, hqp] using hq))
  refine h.of_touch k (.deleteUnlock (some i)) hi rfl rfl rfl (fun _ _ ↦ rfl) (fun q j hj ↦ ?_) id
    (fun j st hst ↦ ?_) (fun k' st hst ↦ absurd hfound ((h.hand k' i st hst).2.2 port))
    (fun j st hst ↦ ?_) (fun q hq ↦ absurd hq (hun q)) (.inl ⟨.unlisted, rfl⟩)
  · by_cases hq : q = port
    · subst hq
      simp [effect, hfound, Ne.symm hj]
    · simp [effect, hq]
  · rw [hk] at hst
    cases hst
  · cases hst
    exact ⟨rfl, hfl, hun⟩

variable {a : Action K}

theorem Inv.places_step (h : Inv s) (g : s.guard a) : Places (s.effect a g) := by
  have hpl := h.places
  cases a with
  | request k r =>
      have hk : s.call (.handler k) = .idle := g.1
      exact hpl.of_move (.handler k) (streamHandler r) rfl (by rw [hk, hand_streamHandler]; rfl) rfl
        rfl rfl fun _ ↦ rfl
  | listen k port p =>
      have hfresh := h.fresh _ (Nat.le_refl _)
      exact hpl.listen g ⟨hfresh.1, hfresh.2.1⟩
  | listenError k port =>
      have hk : s.call k = .listen port := g
      exact hpl.of_move k _ rfl (by rw [hk]; rfl) rfl rfl rfl fun _ ↦ rfl
  | tracks k i =>
      have hst : (s.call k).hand = some (i, .listening) := by
        rw [show s.call k = .tracks i from g]
        rfl
      have hfl := (hpl.hand k i _ hst).2.1
      refine hpl.of_stage k (.createLock i) hst rfl rfl rfl rfl rfl (fun j hj ↦ ?_) ?_ id
      · simp [flags, effect, hj]
      · simp_all [flags, effect, Stage.flags]
  | tracksError k i =>
      have hk : s.call k = .tracks i := g
      exact hpl.of_move k _ rfl (by rw [hk]; rfl) rfl rfl rfl fun _ ↦ rfl
  | listenerClose k i =>
      have hst : (s.call k).hand = some (i, .listening) := by
        rw [show s.call k = .listenerClose i from g]
        rfl
      have hmade : s.made i = false := congrArg (·.2.1) (hpl.hand k i _ hst).2.1
      refine hpl.of_over k _ hst rfl rfl rfl rfl rfl (fun j hj ↦ ?_) ⟨?_, fun hm ↦ ?_⟩
      · simp [flags, effect, hj]
      · simp [effect]
      · change s.made i = true at hm
        rw [hmade] at hm
        cases hm
  | createLock k i | deleteLock k i | lookup k i | lookupNone k i =>
      exact hpl.of_move k _ rfl (by rw [g.1]; rfl) rfl rfl rfl fun _ ↦ rfl
  | insert k i => exact (hpl.insert g).1
  | createUnlock k i =>
      have hk : s.call k = .createUnlock i := g
      exact hpl.of_move k _ rfl (by rw [hk]; rfl) rfl rfl rfl fun _ ↦ rfl
  | start k i =>
      have hk : s.call k = .start i := g
      exact hpl.of_move k _ rfl (by rw [hk]; rfl) rfl rfl rfl fun _ ↦ rfl
  | delete k port i => exact hpl.delete g (h.found k port i g)
  | deleteUnlock k found =>
      have hk : s.call k = .deleteUnlock found := g
      refine hpl.of_move k _ rfl ?_ rfl rfl rfl fun _ ↦ rfl
      rw [hk]
      cases found <;> rfl
  | connClose k i =>
      have hst : (s.call k).hand = some (i, .unlisted) := by
        rw [show s.call k = .connClose i from g]
        rfl
      have hfl := (hpl.hand k i _ hst).2.1
      refine hpl.of_stage k (.hubClose i) hst rfl rfl rfl rfl rfl (fun j hj ↦ ?_) ?_ fun hi ↦ ?_
      · simp [flags, effect, hj]
      · simp_all [flags, effect, Stage.flags]
      · simp [effect] at hi
  | hubClose k i =>
      have hk : s.call k = .hubClose i := g
      have hst : (s.call k).hand = some (i, .closed) := by rw [hk]; rfl
      have hdone : s.hubDone i = false := congrArg (·.2.2) (hpl.hand k i _ hst).2.1
      refine hpl.of_move k _ rfl ?_ rfl rfl rfl fun _ ↦ rfl
      rw [hk, hdone]
      rfl
  | doneClose k i =>
      have hst : (s.call k).hand = some (i, .closed) := by
        rw [show s.call k = .doneClose i from g]
        rfl
      refine hpl.of_over k _ hst rfl rfl rfl rfl rfl (fun j hj ↦ ?_) ⟨?_, fun _ ↦ ?_⟩
      · simp [flags, effect, hj]
      · exact congrArg Prod.fst (hpl.hand k i _ hst).2.1
      · simp [effect]
  | reply k r =>
      have hk : s.call (.handler k) = .returned r := g
      exact hpl.of_move (.handler k) .idle rfl (by rw [hk]; rfl) rfl rfl rfl fun _ ↦ rfl
  | readError i => exact hpl.of_same (fun _ ↦ rfl) rfl rfl rfl fun _ ↦ rfl
  | readerClose i =>
      refine hpl.of_same (fun _ ↦ rfl) rfl rfl rfl fun j ↦ ?_
      have hi := h.closing i g
      by_cases hj : j = i
      · subst hj
        simp [flags, effect, hi]
      · simp [flags, effect, hj]

theorem Locked.step (h : Locked s) (g : s.guard a) : Locked (s.effect a g) := by
  cases a with
  | createLock k i | deleteLock k i => exact h.acquire k _ g.2 rfl rfl rfl
  | createUnlock k i =>
      have hk : s.call k = .createUnlock i := g
      exact h.release k _ (by rw [hk]; rfl) rfl rfl rfl
  | deleteUnlock k found =>
      have hk : s.call k = .deleteUnlock found := g
      exact h.release k _ (by rw [hk]; rfl) rfl rfl (by cases found <;> rfl)
  | request k r =>
      refine h.of_moves g rfl fun hm ↦ ?_
      cases hm
      exact locked_streamHandler r
  | _ =>
      refine h.of_moves g rfl fun hm ↦ ?_
      cases hm <;> rfl

/-- A caller about to delete an entry has just found it, or does not move. -/
theorem call_eq_delete {port : ℤ} (g : s.guard a)
    (hk : (s.effect a g).call k = .delete port i) :
    a = .lookup k port i ∨ s.call k = .delete port i := by
  rcases of_call_step (· = .delete port i) g hk with hk | ⟨p, q, hp, hm, hq⟩
  · exact .inr hk
  · cases hm with
    | lookup =>
        cases hq
        exact .inl rfl
    | request => cases (locked_streamHandler _).symm.trans (congrArg CallAt.locked hq)
    | _ => cases hq

/-- A call about to delete an entry still finds it: nobody else changes the map meanwhile. -/
theorem Locked.found_step (hl : Locked s)
    (hfound : ∀ k port i, s.call k = .delete port i → s.streams port = some i) {port : ℤ}
    (g : s.guard a) (hk : (s.effect a g).call k = .delete port i) :
    (s.effect a g).streams port = some i := by
  rcases call_eq_delete g hk with rfl | hkd
  · exact g.2
  · have hlocked : (s.call k).locked = true := by rw [hkd]; rfl
    cases a with
    | insert k' j =>
        have hk' : s.call k' = .insert j := g
        obtain rfl : k = k' := hl.unique hlocked (by rw [hk']; rfl)
        rw [hk'] at hkd
        cases hkd
    | delete k' port' j =>
        have hk' : s.call k' = .delete port' j := g
        obtain rfl : k = k' := hl.unique hlocked (by rw [hk']; rfl)
        simp [effect] at hk
    | _ => exact hfound k port i hkd

/-- A call of `createStream` has been at work on its stream since the socket was opened. -/
theorem creating_step (g : s.guard a) (hk : ((s.effect a g).call k).creating = some i) :
    (s.call k).creating = some i ∨ i = s.opened ∧ ∃ port p, a = .listen k port p := by
  rcases of_call_step (·.creating = some i) g hk with hk | ⟨p, q, hp, hm, hq⟩
  · exact .inl hk
  · rw [hp]
    cases hm with
    | listen =>
        cases hq
        exact .inr ⟨rfl, _, _, rfl⟩
    | tracks | tracksError | createLock | insert | createUnlock => exact .inl hq
    | request => simp at hq
    | _ => cases hq

theorem opened_le (g : s.guard a) : s.opened ≤ (s.effect a g).opened := by
  cases a with
  | listen k port p => exact Nat.le_succ _
  | _ => exact Nat.le_refl _

theorem Inv.creating_step (h : Inv s) (g : s.guard a)
    (hk : ((s.effect a g).call k).creating = some i) : i < (s.effect a g).opened := by
  rcases Server.creating_step g hk with hi | ⟨rfl, port, p, rfl⟩
  · exact Nat.lt_of_lt_of_le (h.creating k i hi) (opened_le g)
  · exact Nat.lt_succ_self _

theorem Inv.fresh_step (h : Inv s) (g : s.guard a) (hi : (s.effect a g).opened ≤ i) :
    (s.effect a g).made i = false ∧ (s.effect a g).hubDone i = false ∧
      (s.effect a g).reader i = .idle := by
  have hfresh := h.fresh i (Nat.le_trans (opened_le g) hi)
  have hne : ∀ j < s.opened, i ≠ j := fun j hj hij ↦
    Nat.not_le_of_lt hj (hij ▸ Nat.le_trans (opened_le g) hi)
  have hread : ∀ j, s.reader j ≠ .idle → i ≠ j := fun j hj hij ↦ hj (hij ▸ hfresh.2.2)
  cases a with
  | tracks k j =>
      have hk : s.call k = .tracks j := g
      have hj : j < s.opened := h.creating k j (by rw [hk]; rfl)
      simpa [effect, hne j hj] using hfresh
  | start k j =>
      have hk : s.call k = .start j := g
      have hj : j < s.opened := h.creating k j (by rw [hk]; rfl)
      simpa [effect, hne j hj] using hfresh
  | doneClose k j =>
      have hst : (s.call k).hand = some (j, .closed) := by
        rw [show s.call k = .doneClose j from g]
        rfl
      simpa [effect, hne j (h.places.hand k j _ hst).1] using hfresh
  | readError j =>
      have hj : s.reader j = .reading := g
      simpa [effect, hread j (by rw [hj]; exact nofun)] using hfresh
  | readerClose j =>
      have hj : s.reader j = .closing := g
      simpa [effect, hread j (by rw [hj]; exact nofun)] using hfresh
  | _ => exact hfresh

theorem Inv.closing_step (h : Inv s) (g : s.guard a) (hok : s.ReadsSucceed a)
    (hi : (s.effect a g).reader i = .closing) : (s.effect a g).isOpen i = false := by
  cases a with
  | listen k port p =>
      have hne : i ≠ s.opened := by
        rintro rfl
        have hr : s.reader s.opened = .closing := hi
        rw [(h.fresh _ (Nat.le_refl _)).2.2] at hr
        cases hr
      simpa [effect, hne] using h.closing i hi
  | start k j =>
      by_cases hij : i = j
      · subst hij
        simp [effect] at hi
      · exact h.closing i (by simpa [effect, hij] using hi)
  | listenerClose k j | connClose k j =>
      by_cases hij : i = j
      · simp [effect, hij]
      · simpa [effect, hij] using h.closing i hi
  | readError j =>
      by_cases hij : i = j
      · exact hij ▸ hok
      · exact h.closing i (by simpa [effect, hij] using hi)
  | readerClose j =>
      by_cases hij : i = j
      · simp [effect, hij]
      · simpa [effect, hij] using h.closing i (by simpa [effect, hij] using hi)
  | _ => exact h.closing i hi

/-- A hub is closed by the call that has it in hand, once. -/
theorem Inv.panicked_step (h : Inv s) (g : s.guard a) : (s.effect a g).panicked = false := by
  cases a with
  | doneClose k i =>
      have hst : (s.call k).hand = some (i, .closed) := by
        rw [show s.call k = .doneClose i from g]
        rfl
      exact congrArg (·.2.2) (h.places.hand k i _ hst).2.1
  | _ => exact h.panicked

/-- The step lemma. -/
theorem Inv.step (h : Inv s) (g : s.guard a) (hok : s.ReadsSucceed a) : Inv (s.effect a g) where
  places := h.places_step g
  locked := h.locked.step g
  found _ _ _ := h.locked.found_step h.found g
  creating _ _ := h.creating_step g
  fresh _ := h.fresh_step g
  closing _ := h.closing_step g hok
  panicked := h.panicked_step g

/-- At first `New` is about to listen, and nobody else does anything. -/
theorem call_new (RTPPort : ℤ) (k : Caller K) :
    (Server.new RTPPort : Server K).call k = .idle ∨
      (Server.new RTPPort : Server K).call k = .listen RTPPort := by
  cases k with
  | new => exact .inr rfl
  | handler k => exact .inl rfl

theorem Locked.new (RTPPort : ℤ) : Locked (.new RTPPort : Server K) := by
  intro k
  rcases call_new RTPPort k with h | h <;> rw [h] <;> exact ⟨nofun, nofun⟩

theorem Inv.new (RTPPort : ℤ) : Inv (.new RTPPort : Server K) := by
  have hcall := call_new (K := K) RTPPort
  have hhand : ∀ k, ((Server.new RTPPort : Server K).call k).hand = none := by
    intro k
    rcases hcall k with h | h <;> rw [h] <;> rfl
  constructor
  case places =>
    constructor
    case hand =>
      intro k i st hk
      cases (hhand k).symm.trans hk
    case alone =>
      intro k k' i st st' hk
      cases (hhand k).symm.trans hk
    case listed => exact nofun
    case settled => exact nofun
    case ports => exact nofun
  case locked => exact .new RTPPort
  case found =>
    intro k port i hk
    rcases hcall k with h | h <;> cases h.symm.trans hk
  case creating =>
    intro k i hk
    rcases hcall k with h | h <;> rw [h] at hk <;> cases hk
  case fresh => exact fun _ _ ↦ ⟨rfl, rfl, rfl⟩
  case closing => exact nofun
  case panicked => rfl

omit [DecidableEq K] in
/-- In a quiescent state every stream is in the map or done with. -/
theorem Inv.listed_or_over (h : Inv s) (hq : s.Quiescent) (hi : i < s.opened) :
    s.streams (s.port i) = some i ∨ s.Over i := by
  rcases h.places.settled i hi with ⟨k, st, hk⟩ | hi
  · rw [CallAt.hand_of_not_inProgress (hq.1 k)] at hk
    cases hk
  · exact hi

omit [DecidableEq K] in
theorem Inv.lt_of_made (h : Inv s) (hm : s.made i = true) : i < s.opened := by
  by_contra hi
  rw [(h.fresh i (Nat.le_of_not_lt hi)).1] at hm
  cases hm

end Server

/-! ## Runs -/

open Server

variable {K : Type u} [DecidableEq K] {RTPPort : ℤ} {h : List (Server.Event K)} {s : Server K}

/-- The run lemma. -/
theorem server_inv_of_reach (hr : (server K RTPPort).Reach ReadsSucceed h s) : s.Inv := by
  refine hr.invariant_state ?_ fun _ _ g hi hok ↦ hi.step g.2 hok
  rintro _ rfl
  exact .new RTPPort

/-- **The registry invariant.**  In every run in which reads on open sockets do not fail, the map,
the sockets and the hubs agree in every quiescent state. -/
theorem registry_invariant (hr : (server K RTPPort).Reach ReadsSucceed h s) (hq : s.Quiescent) :
    s.Consistent := by
  have hi := server_inv_of_reach hr
  constructor
  case port =>
    intro p i hp
    obtain ⟨-, hport, hfl⟩ := hi.places.listed p i hp
    exact ⟨congrArg (·.2.1) hfl, hport⟩
  case isOpen =>
    intro i hm
    constructor
    · rintro ⟨p, hp⟩
      exact congrArg Prod.fst (hi.places.listed p i hp).2.2
    · intro ho
      rcases hi.listed_or_over hq (hi.lt_of_made hm) with hl | hover
      · exact ⟨_, hl⟩
      · cases hover.1.symm.trans ho
  case hubDone =>
    intro i hm hun
    rcases hi.listed_or_over hq (hi.lt_of_made hm) with hl | hover
    · exact absurd hl (hun _)
    · exact hover.2 hm

/-- The steps of a call of `createStream` that binds the `i`-th socket to port `p`. -/
def create {K : Type u} (k : Caller K) (port p : ℤ) (i : ℕ) : List (Server.Action K) :=
  [.listen k port p, .tracks k i, .createLock k i, .insert k i, .createUnlock k i, .start k i]

/-- The steps of a call of `deleteStream` that finds the stream `i`. -/
def remove {K : Type u} (k : Caller K) (port : ℤ) (i : ℕ) : List (Server.Action K) :=
  [.deleteLock k port, .lookup k port i, .delete k port i, .deleteUnlock k (some i),
    .connClose k i, .hubClose k i, .doneClose k i]

/-- A stream is deleted, its reader fails on the closed socket, and its port is used again. -/
theorem registry_invariant_reuse :
    ∃ h s, (server Unit 65535).Reach ReadsSucceed h s ∧ s.streams 5004 = some 2 ∧
      s.made 1 = true ∧ s.port 1 = 5004 ∧ s.hubDone 1 = true := by
  obtain ⟨h, s, hr, ⟨hn, hc⟩, ho, hread, hl, hm, hp, hclosed⟩ :=
    (server Unit 65535).exists_of_exec ReadsSucceed
      (fun _ s ↦ (s.call .new = .returned (.stream 0) ∧ s.call (.handler ()) = .idle) ∧
        s.opened = 3 ∧ (∀ i < 3, s.reader i ≠ .closing) ∧ s.streams 5004 = some 2 ∧
        s.made 1 = true ∧ s.port 1 = 5004 ∧ s.isOpen 1 = false) rfl
      (create .new 65535 65535 0 ++ Server.Action.request () ⟨.post, ""⟩ ::
        create (.handler ()) 0 5004 1 ++ Server.Action.reply () (.stream 1) ::
        .request () ⟨.delete, "5004"⟩ :: remove (.handler ()) 5004 1 ++
        Server.Action.reply () .noContent :: .readError 1 :: .readerClose 1 ::
        .request () ⟨.post, "5004"⟩ :: create (.handler ()) 5004 5004 2 ++
        [Server.Action.reply () (.stream 2)])
      (by decide +kernel)
  have hq : s.Quiescent := by
    refine ⟨fun k ↦ ?_, fun i hi ↦ hread i (ho ▸ hi)⟩
    cases k with
    | new => rw [hn]; rfl
    | handler k => rw [hc]; rfl
  have hcon := registry_invariant hr hq
  refine ⟨h, s, hr, hl, hm, hp, hcon.hubDone 1 hm fun p hp' ↦ ?_⟩
  have hopen := (hcon.isOpen 1 hm).1 ⟨p, hp'⟩
  rw [hclosed] at hopen
  cases hopen

/-- A read that fails on an open socket leaves the stream in the map, with its socket closed and
its hub running.  The next stream on that port overwrites the entry, and the hub of the first is
never closed. -/
theorem stale_stream :
    ∃ h s, (server Unit 65535).Reach (server Unit 65535).free h s ∧ s.Quiescent ∧
      (s.streams 65535 = some 1 ∧ s.isOpen 1 = false) ∧
      (s.made 0 = true ∧ s.port 0 = 65535 ∧ s.hubDone 0 = false) ∧ ¬ s.Consistent := by
  obtain ⟨h, s, hr, ⟨hn, hc⟩, ho, hread, hl, hm, hp, hdone⟩ :=
    (server Unit 65535).exists_of_exec (server Unit 65535).free
      (fun _ s ↦ (s.call .new = .returned (.stream 0) ∧ s.call (.handler ()) = .idle) ∧
        s.opened = 2 ∧ (∀ i < 2, s.reader i ≠ .closing) ∧
        (s.streams 65535 = some 1 ∧ s.isOpen 1 = false) ∧
        s.made 0 = true ∧ s.port 0 = 65535 ∧ s.hubDone 0 = false) rfl
      (create .new 65535 65535 0 ++
        [Server.Action.readError 0, .readerClose 0, .request () ⟨.post, "65535"⟩] ++
        create (.handler ()) 65535 65535 1 ++
        [Server.Action.reply () (.stream 1), .readError 1, .readerClose 1])
      (by decide +kernel)
  have hq : s.Quiescent := by
    refine ⟨fun k ↦ ?_, fun i hi ↦ hread i (ho ▸ hi)⟩
    cases k with
    | new => rw [hn]; rfl
    | handler k => rw [hc]; rfl
  refine ⟨h, s, hr, hq, hl, ⟨hm, hp, hdone⟩, fun hcon ↦ ?_⟩
  have hclosed := hcon.hubDone 0 hm fun p hp' ↦ by
    obtain rfl : 65535 = p := hp.symm.trans (hcon.port p 0 hp').2
    rw [hl.1] at hp'
    cases hp'
  rw [hdone] at hclosed
  cases hclosed

end ITG.Webrtc
